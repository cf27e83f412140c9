/-
# Transactions that lock in an order

The transactions of `ReadCommitted` keep their locks to their end, so they may wait for each
other in a cycle.  They never do when each statement needs only locks above those that its
transaction holds, in the order of a rank, or locks that it holds already.

* `Client.Orderly` is what a client has to satisfy; `fits_of_run` carries it to every open
  transaction.
* `acyclic_of_run`: no transactions wait for each other in a cycle.
* `goes_on_of_run`: whoever waits does so, over other transactions, for one that can go on.
-/
import LlmCtl.ReadCommitted
import Mathlib.Logic.Relation

namespace ReadCommitted

open EventSystem Relation

variable {D W L P R E : Type*}

/-! ## Waiting -/

/-- The action is the next one of transaction `i`, and not its end by others. -/
def Act.GoesOn (i : ℕ) : Act R → Prop
  | .start j | .finish j | .commit j => j = i
  | .begin _ | .rollback _ => False

namespace Client

variable (c : Client D W L P R E)

/-- Transaction `i` is at a statement that needs the lock, which it does not hold. -/
def Wants (s : State D W L P) (i : ℕ) (l : L) : Prop :=
  ∃ t d, s.tx? i = some t ∧ t.snapshot = some d ∧ l ∈ c.locks t.pc (c.replay t.writes d) ∧
    l ∉ t.held

/-- Transaction `i` waits for a lock that transaction `j` holds. -/
def WaitsFor (s : State D W L P) (i j : ℕ) : Prop :=
  ∃ l u, c.Wants s i l ∧ s.tx? j = some u ∧ l ∈ u.held

/-! ## Clients that lock in an order -/

/-- **The client locks in an order.**  `Fits p held` says which locks a transaction at a program
point may hold. -/
structure Orderly (rank : L → ℕ) (Fits : P → List L → Prop) : Prop where
  entry : ∀ r, Fits (c.entry r) []
  exec : ∀ p d d' held ws p', Fits p held → c.exec p d d' = .ok (ws, p') →
    Fits p' (c.locks p d ++ held)
  up : ∀ p d held l m, Fits p held → l ∈ c.locks p d → m ∈ held → l ∈ held ∨ rank m < rank l

variable {c}

section Orderly

variable [DecidableEq L] {rank : L → ℕ} {Fits : P → List L → Prop}
  {ok : List (Event E) → State D W L P → Act R → Prop} {d₀ : D} {tr : List (Event E)}
  {s : State D W L P}

/-- Every open transaction holds what it may hold. -/
theorem Orderly.fits_of_run (hc : c.Orderly rank Fits) (h : (c.system d₀).Run ok tr s) :
    ∀ i t, s.tx? i = some t → Fits t.pc t.held := by
  refine h.invariant (I := fun _ s => ∀ i t, s.tx? i = some t → Fits t.pc t.held) ?_ ?_
  · rintro _ rfl i t ht
    exact absurd ht (by simp [State.tx?])
  · intro tr s a s' ev _ _ hs ih
    have hput : ∀ i t (v : Option (Tx D W L P)), s.tx? i = some t →
        (∀ t', v = some t' → Fits t'.pc t'.held) →
        ∀ j t', (s.put i v).tx? j = some t' → Fits t'.pc t'.held := by
      intro i t v ht hv j t' hj
      rw [State.tx?_put ht] at hj
      split at hj
      · exact hv t' hj
      · exact ih j t' hj
    cases c.step_move hs with
    | begun r _ =>
      intro i t ht
      rcases c.tx?_begun ht with ht | rfl
      · exact ih i t ht
      · exact hc.entry r
    | started ht _ _ =>
      refine hput _ _ _ ht fun t' h' => ?_
      have hfits := ih _ _ ht
      rw [← Option.some.inj h']
      exact hfits
    | executed ht hsn _ hx =>
      refine hput _ _ _ ht fun t' h' => ?_
      rw [← Option.some.inj h']
      exact hc.exec _ _ _ _ _ _ (ih _ _ ht) hx
    | failed ht _ _ => exact hput _ _ none ht fun _ h' => absurd h' (by simp)
    | committed ht _ => exact hput _ _ none ht fun _ h' => absurd h' (by simp)
    | rolledBack ht => exact hput _ _ none ht fun _ h' => absurd h' (by simp)

/-- What a transaction waits for is above all that it holds. -/
theorem Orderly.wants_lt (hc : c.Orderly rank Fits) (h : (c.system d₀).Run ok tr s) {i : ℕ}
    {l m : L} {t : Tx D W L P} (hw : c.Wants s i l) (ht : s.tx? i = some t) (hm : m ∈ t.held) :
    rank m < rank l := by
  obtain ⟨u, d, hu, -, hl, hnot⟩ := hw
  obtain rfl := Option.some.inj (ht.symm.trans hu)
  exact (hc.up _ _ _ _ _ (hc.fits_of_run h i t ht) hl hm).resolve_left hnot

/-- Along a chain of waiting transactions the ranks of the wanted locks grow. -/
theorem Orderly.chain_lt (hc : c.Orderly rank Fits) (h : (c.system d₀).Run ok tr s) {i j : ℕ}
    (hij : TransGen (c.WaitsFor s) i j) :
    ∃ l, c.Wants s i l ∧ ∀ m, c.Wants s j m → rank l < rank m := by
  induction hij with
  | single hw =>
    obtain ⟨l, u, hwants, hu, hheld⟩ := hw
    exact ⟨l, hwants, fun m hm => hc.wants_lt h hm hu hheld⟩
  | tail _ hw ih =>
    obtain ⟨l, hwants, hlt⟩ := ih
    obtain ⟨m, u, hwants', hu, hheld⟩ := hw
    exact ⟨l, hwants, fun n hn => Nat.lt_trans (hlt m hwants') (hc.wants_lt h hn hu hheld)⟩

/-- **No transactions wait for each other in a cycle.** -/
theorem Orderly.acyclic_of_run (hc : c.Orderly rank Fits) (h : (c.system d₀).Run ok tr s)
    (i : ℕ) : ¬ TransGen (c.WaitsFor s) i i := by
  intro hcycle
  obtain ⟨l, hwants, hlt⟩ := hc.chain_lt h hcycle
  exact Nat.lt_irrefl _ (hlt l hwants)

/-- A transaction that waits for nobody can go on. -/
theorem exists_step_of_not_waits {i : ℕ} {t : Tx D W L P} (ht : s.tx? i = some t)
    (hfree : ∀ j, ¬ c.WaitsFor s i j) (hex : HeldExclusive s) :
    ∃ a, Act.GoesOn i a ∧ (c.step s a).isSome = true := by
  cases hsn : t.snapshot with
  | none =>
    cases hd : c.done t.pc with
    | true => exact ⟨.commit i, rfl, by simp [step, ht, hd]⟩
    | false => exact ⟨.start i, rfl, by simp [step, ht, hd, hsn]⟩
  | some d =>
    refine ⟨.finish i, rfl, ?_⟩
    have hnone : (c.locks t.pc (c.replay t.writes d)).any (s.heldByOther i) = false := by
      rw [List.any_eq_false]
      intro l hl hheld
      obtain ⟨j, -, hj⟩ := List.any_eq_true.mp hheld
      simp only [Bool.and_eq_true, bne_iff_ne, ne_eq, Option.any_eq_true,
        decide_eq_true_eq] at hj
      obtain ⟨hne, u, hu, hlu⟩ := hj
      exact hfree j ⟨l, u,
        ⟨t, d, ht, hsn, hl, fun hlt => hex i j t u l (Ne.symm hne) ht hu hlt hlu⟩,
        hu, hlu⟩
    simp only [step, ht, hsn, hnone, Bool.false_eq_true, if_false]
    split <;> rfl

/-- **Whoever waits does so for a transaction that can go on.** -/
theorem Orderly.goes_on_of_run (hc : c.Orderly rank Fits) {bound : ℕ} (hbound : ∀ l, rank l < bound)
    (h : (c.system d₀).Run ok tr s) {i : ℕ} {t : Tx D W L P} (ht : s.tx? i = some t) :
    ∃ j a, ReflTransGen (c.WaitsFor s) i j ∧ Act.GoesOn j a ∧ (c.step s a).isSome = true := by
  suffices hsuff : ∀ n i t, s.tx? i = some t → (∀ l, c.Wants s i l → bound ≤ rank l + n) →
      ∃ j a, ReflTransGen (c.WaitsFor s) i j ∧ Act.GoesOn j a ∧ (c.step s a).isSome = true from
    hsuff bound i t ht fun l _ => Nat.le_add_left bound (rank l)
  intro n
  induction n with
  | zero =>
    intro i t ht hi
    obtain ⟨a, ha, hstep⟩ := exists_step_of_not_waits ht (fun j hw => by
      obtain ⟨l, -, hwants, -, -⟩ := hw
      have hle := hi l hwants
      have hlt := hbound l
      omega) (c.held_exclusive h)
    exact ⟨i, a, .refl, ha, hstep⟩
  | succ n ih =>
    intro i t ht hi
    by_cases hwaits : ∃ k, c.WaitsFor s i k
    · obtain ⟨k, l, u, hwants, hu, hheld⟩ := hwaits
      obtain ⟨j, a, hkj, ha, hstep⟩ := ih k u hu fun m hm => by
        have hlt := hc.wants_lt h hm hu hheld
        have hle := hi l hwants
        omega
      exact ⟨j, a, .head ⟨l, u, hwants, hu, hheld⟩ hkj, ha, hstep⟩
    · obtain ⟨a, ha, hstep⟩ := exists_step_of_not_waits ht (fun j hj => hwaits ⟨j, hj⟩)
        (c.held_exclusive h)
      exact ⟨i, a, .refl, ha, hstep⟩

end Orderly

end Client

end ReadCommitted
