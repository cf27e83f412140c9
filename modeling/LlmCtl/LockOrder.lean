/-
# Tasks that lock mutexes in an order

Tasks run programs that hold mutexes: a mutex is taken, something runs, and the mutex is freed.
What a program does in between is left open: a branch is any of its sides, a loop any number of
rounds.  A task that finds a mutex taken waits.  It may be dropped at any time, and a part of it
may time out; both free what they held.

If every program takes its mutexes in the order of a rank, then in no reachable state do the
tasks wait for each other in a cycle, and whoever waits does so, over other tasks, for one that
does not wait.
-/
import LlmCtl.ListTable
import LlmCtl.Runs
import Mathlib.Logic.Relation
import Mathlib.Data.Nat.Notation

namespace LockOrder

open EventSystem Relation

variable {L κ : Type*}

/-! ## Programs -/

/-- What a program does to mutexes. -/
inductive Prog (L : Type*) where
  | skip
  /-- The mutex is taken, the program runs, and the mutex is freed. -/
  | hold (l : L) (p : Prog L)
  | seq (p q : Prog L)
  | choice (p q : Prog L)
  | loop (p : Prog L)
  /-- The program is dropped when its time is over. -/
  | timeout (p : Prog L)

namespace Prog

/-- A section under a mutex with no other mutex in it. -/
def lock (l : L) : Prog L := .hold l .skip

/-- One program after another. -/
def steps : List (Prog L) → Prog L
  | [] => .skip
  | p :: ps => .seq p (steps ps)

/-- An early return, or the rest. -/
def orReturn (p : Prog L) : Prog L := .choice .skip p

/-- Every mutex is above the floor, and above those that are held around it. -/
def above (rank : L → ℕ) : ℕ → Prog L → Bool
  | _, .skip => true
  | floor, .hold l p => decide (floor ≤ rank l) && above rank (rank l + 1) p
  | floor, .seq p q => above rank floor p && above rank floor q
  | floor, .choice p q => above rank floor p && above rank floor q
  | floor, .loop p => above rank floor p
  | floor, .timeout p => above rank floor p

end Prog

/-! ## Tasks -/

/-- What a task has still to do: run a program, free a mutex, or leave a part that may time
out. -/
inductive Item (L : Type*) where
  | run (p : Prog L)
  | free (l : L)
  | limit

/-- What a task has still to do, with what comes next at the head. -/
abbrev Todo (L : Type*) := List (Item L)

/-- Does the task hold the mutex? -/
def Todo.holds [DecidableEq L] (t : Todo L) (l : L) : Bool :=
  t.any fun
    | .free m => m = l
    | _ => false

/-- One step of a task; `b` is the side of a branch, and `taken` says which mutexes it finds
taken. -/
def Todo.move (taken : L → Bool) (b : Bool) : Todo L → Option (Todo L)
  | [] => none
  | .free _ :: t => some t
  | .limit :: t => some t
  | .run .skip :: t => some t
  | .run (.seq p q) :: t => some (.run p :: .run q :: t)
  | .run (.choice p q) :: t => some (.run (if b then p else q) :: t)
  | .run (.loop p) :: t => some (if b then .run p :: .run (.loop p) :: t else t)
  | .run (.timeout p) :: t => some (.run p :: .limit :: t)
  | .run (.hold l p) :: t => if taken l then none else some (.run p :: .free l :: t)

/-- The innermost part that may time out is dropped. -/
def Todo.expire : Todo L → Option (Todo L)
  | [] => none
  | .limit :: t => some t
  | _ :: t => Todo.expire t

inductive Act (κ : Type*) where
  /-- A task of a kind is started. -/
  | spawn (c : κ)
  | go (i : ℕ) (b : Bool)
  | expire (i : ℕ)
  /-- A task is dropped, or panics. -/
  | drop (i : ℕ)

/-- One step of the tasks. -/
def lockStep [DecidableEq L] (roots : κ → Prog L) (ts : List (Todo L)) :
    Act κ → Option (List (Todo L) × List Empty)
  | .spawn c => some (ts ++ [[.run (roots c)]], [])
  | .go i b =>
    match ts[i]? with
    | some t => (t.move (fun l => ts.any fun u => u.holds l) b).map fun t => (ts.set i t, [])
    | none => none
  | .expire i =>
    match ts[i]? with
    | some t => t.expire.map fun t => (ts.set i t, [])
    | none => none
  | .drop i => some (ts.set i [], [])

/-- The tasks as a system: any number of each kind. -/
def tasks [DecidableEq L] (roots : κ → Prog L) : EventSystem (List (Todo L)) (Act κ) Empty where
  init := fun ts => ts = []
  step := lockStep roots

/-- The steps of the tasks, one constructor for each kind. -/
inductive TaskStep [DecidableEq L] (roots : κ → Prog L) (ts : List (Todo L)) :
    List (Todo L) → Prop
  | spawned (c : κ) : TaskStep roots ts (ts ++ [[.run (roots c)]])
  | moved {t u : Todo L} {b : Bool} (i : ℕ) : ts[i]? = some t →
      t.move (fun l => ts.any fun u => u.holds l) b = some u → TaskStep roots ts (ts.set i u)
  | expired {t u : Todo L} (i : ℕ) : ts[i]? = some t → t.expire = some u →
      TaskStep roots ts (ts.set i u)
  | dropped (i : ℕ) : TaskStep roots ts (ts.set i [])

/-- **Inversion of the step function.** -/
theorem lockStep_cases [DecidableEq L] {roots : κ → Prog L} {ts ts' : List (Todo L)} {a : Act κ}
    {ev : List Empty} (hs : lockStep roots ts a = some (ts', ev)) : TaskStep roots ts ts' := by
  cases a with
  | spawn c =>
    obtain ⟨rfl, -⟩ := Prod.mk.inj (Option.some.inj hs)
    exact .spawned c
  | go i b =>
    simp only [lockStep] at hs
    split at hs
    · next t ht =>
      obtain ⟨u, hu, heq⟩ := Option.map_eq_some_iff.mp hs
      obtain ⟨rfl, -⟩ := Prod.mk.inj heq
      exact .moved i ht hu
    · exact absurd hs (by simp)
  | expire i =>
    simp only [lockStep] at hs
    split at hs
    · next t ht =>
      obtain ⟨u, hu, heq⟩ := Option.map_eq_some_iff.mp hs
      obtain ⟨rfl, -⟩ := Prod.mk.inj heq
      exact .expired i ht hu
    · exact absurd hs (by simp)
  | drop i =>
    obtain ⟨rfl, -⟩ := Prod.mk.inj (Option.some.inj hs)
    exact .dropped i

/-! ## Waiting -/

/-- The task wants this mutex next. -/
def Todo.Wants (t : Todo L) (l : L) : Prop := ∃ p k, t = .run (.hold l p) :: k

/-- Todo `i` waits for a mutex that task `j` holds. -/
def WaitsFor [DecidableEq L] (ts : List (Todo L)) (i j : ℕ) : Prop :=
  ∃ l t u, ts[i]? = some t ∧ ts[j]? = some u ∧ t.Wants l ∧ u.holds l = true

/-- The rank that the next mutex of a task must have at least: one more than that of the mutex
it took last. -/
def Todo.floor (rank : L → ℕ) : Todo L → ℕ
  | [] => 0
  | .free l :: _ => rank l + 1
  | _ :: t => Todo.floor rank t

/-- Everything that the task has still to do is in the order of the ranks. -/
def Todo.InOrder (rank : L → ℕ) : Todo L → Prop
  | [] => True
  | .run p :: t => p.above rank (Todo.floor rank t) = true ∧ Todo.InOrder rank t
  | .free l :: t => Todo.floor rank t ≤ rank l ∧ Todo.InOrder rank t
  | .limit :: t => Todo.InOrder rank t

section InOrder

variable {rank : L → ℕ} {t u : Todo L}

/-- **A task moves in order.** -/
theorem Todo.InOrder.move {taken : L → Bool} {b : Bool} (h : t.InOrder rank)
    (hs : t.move taken b = some u) : u.InOrder rank := by
  unfold Todo.move at hs
  split at hs
  · exact absurd hs (by simp)
  · obtain rfl := Option.some.inj hs
    exact h.2
  · obtain rfl := Option.some.inj hs
    exact h
  · obtain rfl := Option.some.inj hs
    exact h.2
  · obtain rfl := Option.some.inj hs
    obtain ⟨hpq, ht⟩ := h
    rw [Prog.above, Bool.and_eq_true] at hpq
    exact ⟨hpq.1, hpq.2, ht⟩
  · obtain rfl := Option.some.inj hs
    obtain ⟨hpq, ht⟩ := h
    rw [Prog.above, Bool.and_eq_true] at hpq
    cases b with
    | true => exact ⟨hpq.1, ht⟩
    | false => exact ⟨hpq.2, ht⟩
  · obtain rfl := Option.some.inj hs
    obtain ⟨hp, ht⟩ := h
    cases b with
    | true => exact ⟨hp, hp, ht⟩
    | false => exact ht
  · obtain rfl := Option.some.inj hs
    exact h
  · split at hs
    · exact absurd hs (by simp)
    · obtain rfl := Option.some.inj hs
      obtain ⟨hp, ht⟩ := h
      rw [Prog.above, Bool.and_eq_true, decide_eq_true_eq] at hp
      exact ⟨hp.2, hp.1, ht⟩

theorem Todo.InOrder.tail {x : Item L} (h : Todo.InOrder rank (x :: t)) : t.InOrder rank := by
  cases x with
  | run p => exact h.2
  | free l => exact h.2
  | limit => exact h

/-- A part that is dropped leaves the rest in order. -/
theorem Todo.InOrder.expire (h : t.InOrder rank) (hs : t.expire = some u) : u.InOrder rank := by
  induction t with
  | nil => exact absurd hs (by simp [Todo.expire])
  | cons x t ih =>
    unfold Todo.expire at hs
    split at hs
    · exact absurd ‹_› (by simp)
    · obtain rfl := Option.some.inj hs
      next heq => exact (List.cons.inj heq).2 ▸ h.tail
    · next heq => exact ih h.tail ((List.cons.inj heq).2 ▸ hs)

variable [DecidableEq L]

/-- A task holds only mutexes below its floor. -/
theorem Todo.InOrder.holds_lt (h : t.InOrder rank) {l : L} (hl : t.holds l = true) :
    rank l < t.floor rank := by
  induction t with
  | nil => exact absurd hl Bool.false_ne_true
  | cons x t ih =>
    rw [Todo.holds, List.any_cons, Bool.or_eq_true] at hl
    cases x with
    | run p =>
      exact ih h.2 (hl.resolve_left Bool.false_ne_true)
    | free m =>
      show rank l < rank m + 1
      rcases hl with heq | hl
      · rw [of_decide_eq_true heq]
        exact Nat.lt_succ_self _
      · have hlt := ih h.2 hl
        have hle := h.1
        omega
    | limit => exact ih h (hl.resolve_left Bool.false_ne_true)

/-- **A task wants only mutexes above those that it holds.** -/
theorem Todo.InOrder.wants_lt (h : t.InOrder rank) {l m : L} (hl : t.holds l = true)
    (hm : t.Wants m) : rank l < rank m := by
  obtain ⟨p, k, rfl⟩ := hm
  have hlt := Todo.InOrder.holds_lt h hl
  have hle : Todo.floor rank k ≤ rank m := by
    have habove := h.1
    rw [Prog.above, Bool.and_eq_true, decide_eq_true_eq] at habove
    exact habove.1
  exact Nat.lt_of_lt_of_le hlt hle

end InOrder

/-! ## No cycle -/

section Cycle

variable {rank : L → ℕ} {ts ts' : List (Todo L)}

/-- Every task is in order. -/
def AllInOrder (rank : L → ℕ) (ts : List (Todo L)) : Prop :=
  ∀ t ∈ ts, Todo.InOrder rank t

theorem AllInOrder.set (h : AllInOrder rank ts) {t : Todo L} (ht : t.InOrder rank) (i : ℕ) :
    AllInOrder rank (ts.set i t) := by
  intro u hu
  rcases List.mem_or_eq_of_mem_set hu with hu | rfl
  · exact h u hu
  · exact ht

variable [DecidableEq L]

/-- **Every step keeps the order.** -/
theorem AllInOrder.step {roots : κ → Prog L} (hroots : ∀ c, (roots c).above rank 0 = true)
    {a : Act κ} {ev : List Empty} (h : AllInOrder rank ts)
    (hs : lockStep roots ts a = some (ts', ev)) : AllInOrder rank ts' := by
  cases lockStep_cases hs with
  | spawned c =>
    intro t ht
    rcases List.mem_append.mp ht with ht | ht
    · exact h t ht
    · rw [List.mem_singleton.mp ht]
      exact ⟨hroots c, trivial⟩
  | moved i ht hu => exact h.set ((h _ (List.mem_of_getElem? ht)).move hu) i
  | expired i ht hu => exact h.set ((h _ (List.mem_of_getElem? ht)).expire hu) i
  | dropped i => exact h.set (t := []) trivial i

theorem allInOrder_of_run {roots : κ → Prog L} (hroots : ∀ c, (roots c).above rank 0 = true)
    {tr : List Empty} (h : (tasks roots).Run Anything tr ts) : AllInOrder rank ts := by
  refine h.invariant (I := fun _ ts => AllInOrder rank ts) ?_ ?_
  · rintro ts rfl t ht
    exact absurd ht List.not_mem_nil
  · intro tr ts a ts' ev _ _ hs hok
    exact hok.step hroots hs

/-- Along a chain of waiting tasks the ranks of the wanted mutexes grow. -/
theorem AllInOrder.chain_lt (h : AllInOrder rank ts) {i j : ℕ} (hij : TransGen (WaitsFor ts) i j) :
    ∃ l t, ts[i]? = some t ∧ t.Wants l ∧
      ∀ m u, ts[j]? = some u → u.Wants m → rank l < rank m := by
  induction hij with
  | single hw =>
    obtain ⟨l, t, u, ht, hu, hwants, hholds⟩ := hw
    refine ⟨l, t, ht, hwants, fun m u' hu' hm => ?_⟩
    obtain rfl := Option.some.inj (hu.symm.trans hu')
    exact (h u (List.mem_of_getElem? hu)).wants_lt hholds hm
  | tail _ hw ih =>
    obtain ⟨l, t, ht, hwants, hlt⟩ := ih
    obtain ⟨m, u, v, hu, hv, hwants', hholds⟩ := hw
    refine ⟨l, t, ht, hwants, fun n v' hv' hn => ?_⟩
    obtain rfl := Option.some.inj (hv.symm.trans hv')
    exact Nat.lt_trans (hlt m u hu hwants')
      ((h v (List.mem_of_getElem? hv)).wants_lt hholds hn)

/-- **Tasks in order do not wait in a cycle.** -/
theorem AllInOrder.acyclic (h : AllInOrder rank ts) (i : ℕ) : ¬ TransGen (WaitsFor ts) i i := by
  intro hcycle
  obtain ⟨l, t, ht, hwants, hlt⟩ := h.chain_lt hcycle
  exact Nat.lt_irrefl _ (hlt l t ht hwants)

/-- **Whoever waits does so for a task that does not wait**: there is a way there along the
waiting tasks. -/
theorem AllInOrder.chain_ends (h : AllInOrder rank ts) {bound : ℕ} (hbound : ∀ l, rank l < bound)
    (i : ℕ) : ∃ j, ReflTransGen (WaitsFor ts) i j ∧ ∀ k, ¬ WaitsFor ts j k := by
  suffices hsuff : ∀ n i, (∀ l t, ts[i]? = some t → t.Wants l → bound ≤ rank l + n) →
      ∃ j, ReflTransGen (WaitsFor ts) i j ∧ ∀ k, ¬ WaitsFor ts j k from
    hsuff bound i fun l _ _ _ => Nat.le_add_left bound (rank l)
  intro n
  induction n with
  | zero =>
    intro i hi
    refine ⟨i, .refl, ?_⟩
    rintro k ⟨l, t, -, ht, -, hwants, -⟩
    have hle := hi l t ht hwants
    have hlt := hbound l
    omega
  | succ n ih =>
    intro i hi
    by_cases hwaits : ∃ k, WaitsFor ts i k
    · obtain ⟨k, hk⟩ := hwaits
      obtain ⟨l, t, u, ht, hu, hwants, hholds⟩ := hk
      obtain ⟨j, hkj, hj⟩ := ih k fun m v hv hm => by
        obtain rfl := Option.some.inj (hu.symm.trans hv)
        have hlt := (h u (List.mem_of_getElem? hu)).wants_lt hholds hm
        have hle := hi l t ht hwants
        omega
      exact ⟨j, .head ⟨l, t, u, ht, hu, hwants, hholds⟩ hkj, hj⟩
    · exact ⟨i, .refl, fun k hk => hwaits ⟨k, hk⟩⟩

end Cycle

/-! ## One holder -/

section Exclusive

variable [DecidableEq L] {ts ts' : List (Todo L)} {t u : Todo L}

/-- A mutex is held by one task at most. -/
def Exclusive (ts : List (Todo L)) : Prop :=
  ∀ (i j : ℕ) (t u : Todo L) (l : L), ts[i]? = some t → ts[j]? = some u → t.holds l = true →
    u.holds l = true → i = j

/-- A task that moves holds what it held, or takes what it does not find taken. -/
theorem Todo.holds_of_move {taken : L → Bool} {b : Bool} (hs : t.move taken b = some u) {l : L}
    (hl : u.holds l = true) : t.holds l = true ∨ taken l = false := by
  unfold Todo.move at hs
  split at hs
  · exact absurd hs (by simp)
  · obtain rfl := Option.some.inj hs
    left
    rw [Todo.holds, List.any_cons, Bool.or_eq_true]
    exact .inr hl
  · obtain rfl := Option.some.inj hs
    exact .inl hl
  · obtain rfl := Option.some.inj hs
    exact .inl hl
  · obtain rfl := Option.some.inj hs
    exact .inl hl
  · obtain rfl := Option.some.inj hs
    exact .inl hl
  · obtain rfl := Option.some.inj hs
    cases b <;> exact .inl hl
  · obtain rfl := Option.some.inj hs
    exact .inl hl
  · next m p t =>
    split at hs
    · exact absurd hs (by simp)
    · next hfree =>
      obtain rfl := Option.some.inj hs
      rw [Todo.holds, List.any_cons, List.any_cons, Bool.false_or, Bool.or_eq_true] at hl
      rcases hl with heq | hl
      · right
        rw [← of_decide_eq_true heq]
        simpa using hfree
      · exact .inl hl

theorem Todo.holds_of_expire (hs : t.expire = some u) {l : L} (hl : u.holds l = true) :
    t.holds l = true := by
  induction t with
  | nil => exact absurd hs (by simp [Todo.expire])
  | cons x t ih =>
    rw [Todo.holds, List.any_cons, Bool.or_eq_true]
    right
    unfold Todo.expire at hs
    split at hs
    · exact absurd ‹_› (by simp)
    · next heq =>
      obtain rfl := Option.some.inj hs
      exact (List.cons.inj heq).2 ▸ hl
    · next heq => exact ih ((List.cons.inj heq).2 ▸ hs)

/-- A task that holds no more than before, but for mutexes that nobody held. -/
theorem Exclusive.set (h : Exclusive ts) {i : ℕ} (ht : ts[i]? = some t)
    (hu : ∀ l, u.holds l = true → t.holds l = true ∨ ∀ v ∈ ts, v.holds l = false) :
    Exclusive (ts.set i u) := by
  have hcases : ∀ {j : ℕ} {v : Todo L}, (ts.set i u)[j]? = some v →
      (j = i ∧ v = u) ∨ (j ≠ i ∧ ts[j]? = some v) := by
    intro j v hv
    by_cases hji : j = i
    · subst hji
      rw [List.getElem?_set_self (List.getElem?_eq_some_iff.mp ht).1] at hv
      exact .inl ⟨rfl, (Option.some.inj hv).symm⟩
    · rw [List.getElem?_set_ne (Ne.symm hji)] at hv
      exact .inr ⟨hji, hv⟩
  -- what the changed task holds no other one does
  have hother : ∀ {j : ℕ} {v : Todo L} {l : L}, j ≠ i → ts[j]? = some v → u.holds l = true →
      v.holds l ≠ true := by
    intro j v l hji hv hul hvl
    rcases hu l hul with htl | hnone
    · exact hji (h j i v t l hv ht hvl htl)
    · rw [hnone v (List.mem_of_getElem? hv)] at hvl
      exact Bool.false_ne_true hvl
  intro j k v w l hv hw hvl hwl
  rcases hcases hv with ⟨rfl, rfl⟩ | ⟨hji, hv'⟩
  · rcases hcases hw with ⟨rfl, -⟩ | ⟨hki, hw'⟩
    · rfl
    · exact absurd hwl (hother hki hw' hvl)
  · rcases hcases hw with ⟨rfl, rfl⟩ | ⟨-, hw'⟩
    · exact absurd hvl (hother hji hv' hwl)
    · exact h j k v w l hv' hw' hvl hwl

/-- **Every step keeps the mutexes exclusive.** -/
theorem Exclusive.step {roots : κ → Prog L} {a : Act κ} {ev : List Empty} (h : Exclusive ts)
    (hs : lockStep roots ts a = some (ts', ev)) : Exclusive ts' := by
  cases lockStep_cases hs with
  | spawned c =>
    have hold : ∀ {j : ℕ} {v : Todo L} {l : L}, (ts ++ [[.run (roots c)]])[j]? = some v →
        v.holds l = true → ts[j]? = some v := by
      intro j v l hv hl
      rcases ListTable.getElem?_concat_cases hv with hv | ⟨-, rfl⟩
      · exact hv
      · exact absurd hl Bool.false_ne_true
    intro i j v w l hv hw hvl hwl
    exact h i j v w l (hold hv hvl) (hold hw hwl) hvl hwl
  | moved i ht hu =>
    refine h.set ht fun l hl => (Todo.holds_of_move hu hl).imp_right fun hfree v hv => ?_
    exact Bool.eq_false_iff.mpr (List.any_eq_false.mp hfree v hv)
  | expired i ht hu => exact h.set ht fun l hl => .inl (Todo.holds_of_expire hu hl)
  | dropped i =>
    cases ht : ts[i]? with
    | none =>
      rw [List.set_eq_of_length_le (List.getElem?_eq_none_iff.mp ht)]
      exact h
    | some t => exact h.set ht fun l hl => absurd hl Bool.false_ne_true

/-- **No mutex has two holders.** -/
theorem exclusive_of_run {roots : κ → Prog L} {tr : List Empty}
    (h : (tasks roots).Run Anything tr ts) : Exclusive ts := by
  refine h.invariant (I := fun _ ts => Exclusive ts) ?_ ?_
  · rintro ts rfl i j t u l ht
    exact absurd ht (by simp)
  · intro tr ts a ts' ev _ _ hs hok
    exact hok.step hs

end Exclusive

end LockOrder
