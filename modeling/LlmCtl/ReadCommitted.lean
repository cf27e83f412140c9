/-
# Transactions under READ COMMITTED

A database server runs any number of transactions.  Each of them is driven by a client
program: a statement is started, which takes a snapshot of what is committed, and it is
executed once the locks that it needs are free; the locks are held to the end of the
transaction.  Rows that a statement locks are read in their latest committed version, the
others in the version of the snapshot.  The rows that a transaction writes are its own
until it commits, and are published all at once.  A transaction may be rolled back at any
point: by an error of one of its statements, or for reasons of its own.

* `Client` is the interface: which locks a statement needs, what it writes and where the
  program goes on;
* `held_exclusive`: no lock is held twice;
* `replay_protected`: what a lock protects is not changed by the commit of others;
* `Client.Assertions.holds` is the induction rule: an assertion about the committed data
  together with one about each open transaction, which the other transactions do not
  disturb as long as they hold other locks.
-/
import LlmCtl.ListTable
import LlmCtl.Runs

namespace ReadCommitted

open EventSystem ListTable

/-! ## Transactions and their clients -/

/-- An open transaction over the data `D`: the program point of its client, the snapshot of
the running statement, the locks that it holds, and the rows that it has written, in order. -/
structure Tx (D W L P : Type*) where
  pc : P
  snapshot : Option D
  held : List L
  writes : List W

/-- The clients of a database: a request `R` starts a program over the program points `P`,
whose statements may fail with an error `E`. -/
structure Client (D W L P R E : Type*) where
  apply : W → D → D
  entry : R → P
  /-- Is the commit the only thing left to do? -/
  done : P → Bool
  /-- The locks of the statement at a program point, given what its snapshot shows. -/
  locks : P → D → List L
  /-- The statement at a program point, given what its snapshot shows and the latest version
  of the rows. -/
  exec : P → D → D → Except E (List W × P)

/-- What is committed, and the transactions; one that has ended is `none`. -/
structure State (D W L P : Type*) where
  committed : D
  txs : List (Option (Tx D W L P))

inductive Act (R : Type*) where
  | begin (r : R)
  /-- The next statement of a transaction takes its snapshot. -/
  | start (i : ℕ)
  /-- The running statement has its locks and does its work. -/
  | finish (i : ℕ)
  | commit (i : ℕ)
  /-- The client gives up, its connection breaks, or the server aborts the transaction. -/
  | rollback (i : ℕ)

inductive Event (E : Type*) where
  | committed (i : ℕ)
  | failed (i : ℕ) (e : E)
  | rolledBack (i : ℕ)
  deriving DecidableEq, Repr

variable {D W L P R E : Type*}

namespace State

/-- The open transaction `i`. -/
def tx? (s : State D W L P) (i : ℕ) : Option (Tx D W L P) := s.txs[i]?.join

/-- Transaction `i` is now as given. -/
def put (s : State D W L P) (i : ℕ) (t : Option (Tx D W L P)) : State D W L P :=
  { s with txs := s.txs.modify i fun _ => t }

/-- Does a transaction other than `i` hold the lock? -/
def heldByOther [DecidableEq L] (s : State D W L P) (i : ℕ) (l : L) : Bool :=
  (List.range s.txs.length).any fun j => j != i && (s.tx? j).any fun t => decide (l ∈ t.held)

@[simp] theorem put_committed (s : State D W L P) (i : ℕ) (t : Option (Tx D W L P)) :
    (s.put i t).committed = s.committed := rfl

/-- An open transaction is an entry of the table. -/
theorem getElem?_of_tx? {s : State D W L P} {i : ℕ} {t : Tx D W L P} (h : s.tx? i = some t) :
    s.txs[i]? = some (some t) := Option.join_eq_some_iff.mp h

/-- What the table holds after one transaction has moved. -/
theorem tx?_put {s : State D W L P} {i : ℕ} {t : Tx D W L P} (h : s.tx? i = some t)
    (u : Option (Tx D W L P)) (j : ℕ) : (s.put i u).tx? j = if j = i then u else s.tx? j := by
  have hupd := updates_modify (f := fun _ => u) (getElem?_of_tx? h)
  by_cases hj : j = i
  · subst hj
    rw [if_pos rfl, tx?, put, hupd.self]
    rfl
  · rw [if_neg hj, tx?, put, hupd.other j hj]
    rfl

/-- A lock that nobody else holds is in no other open transaction. -/
theorem not_mem_held [DecidableEq L] {s : State D W L P} {i j : ℕ} {l : L} {t : Tx D W L P}
    (h : s.heldByOther i l = false) (hj : j ≠ i) (ht : s.tx? j = some t) : l ∉ t.held := by
  intro hl
  have hlt : j < s.txs.length := (List.getElem?_eq_some_iff.mp (getElem?_of_tx? ht)).1
  have hheld : s.heldByOther i l = true := by
    refine List.any_eq_true.mpr ⟨j, List.mem_range.mpr hlt, ?_⟩
    simp [hj, ht, hl]
  rw [h] at hheld
  exact Bool.false_ne_true hheld

end State

namespace Client

variable (c : Client D W L P R E)

/-- The data with the rows written to it. -/
def replay (ws : List W) (d : D) : D := ws.foldl (fun d w => c.apply w d) d

/-- A transaction at its beginning. -/
def fresh (r : R) : Tx D W L P where
  pc := c.entry r
  snapshot := none
  held := []
  writes := []

/-- The transaction after its running statement. -/
def executed (t : Tx D W L P) (d : D) (ws : List W) (p : P) : Tx D W L P where
  pc := p
  snapshot := none
  held := c.locks t.pc (c.replay t.writes d) ++ t.held
  writes := t.writes ++ ws

/-- The outcome of the running statement, which sees the rows of its own transaction in both
versions. -/
def outcome (s : State D W L P) (t : Tx D W L P) (d : D) : Except E (List W × P) :=
  c.exec t.pc (c.replay t.writes d) (c.replay t.writes s.committed)

/-- **One step of the server.** -/
def step [DecidableEq L] (s : State D W L P) : Act R → Option (State D W L P × List (Event E))
  | .begin r => some ({ s with txs := s.txs ++ [some (c.fresh r)] }, [])
  | .start i =>
    match s.tx? i with
    | some t =>
      if c.done t.pc || t.snapshot.isSome then none
      else some (s.put i (some { t with snapshot := some s.committed }), [])
    | none => none
  | .finish i =>
    match s.tx? i with
    | some t =>
      match t.snapshot with
      | some d =>
        if (c.locks t.pc (c.replay t.writes d)).any (s.heldByOther i) then none
        else
          match c.outcome s t d with
          | .ok (ws, p) => some (s.put i (some (c.executed t d ws p)), [])
          | .error e => some (s.put i none, [.failed i e])
      | none => none
    | none => none
  | .commit i =>
    match s.tx? i with
    | some t =>
      if c.done t.pc then
        some ({ s.put i none with committed := c.replay t.writes s.committed }, [.committed i])
      else none
    | none => none
  | .rollback i =>
    match s.tx? i with
    | some _ => some (s.put i none, [.rolledBack i])
    | none => none

/-- The server as a system with events, started on the data `d₀`. -/
def system [DecidableEq L] (d₀ : D) : EventSystem (State D W L P) (Act R) (Event E) where
  init := fun s => s = ⟨d₀, []⟩
  step := c.step

@[simp] theorem replay_nil (d : D) : c.replay [] d = d := rfl

@[simp] theorem replay_cons (w : W) (ws : List W) (d : D) :
    c.replay (w :: ws) d = c.replay ws (c.apply w d) := rfl

/-! ## What a step can do -/

/-- The steps of the server, one constructor for each kind. -/
inductive Move [DecidableEq L] (s : State D W L P) (a : Act R) :
    State D W L P → List (Event E) → Prop
  | begun (r : R) : a = .begin r → Move s a { s with txs := s.txs ++ [some (c.fresh r)] } []
  | started {i : ℕ} {t : Tx D W L P} :
      s.tx? i = some t → c.done t.pc = false → t.snapshot = none →
      Move s a (s.put i (some { t with snapshot := some s.committed })) []
  | executed {i : ℕ} {t : Tx D W L P} {d : D} {ws : List W} {p : P} :
      s.tx? i = some t → t.snapshot = some d →
      (∀ l ∈ c.locks t.pc (c.replay t.writes d), s.heldByOther i l = false) →
      c.outcome s t d = .ok (ws, p) → Move s a (s.put i (some (c.executed t d ws p))) []
  | failed {i : ℕ} {t : Tx D W L P} {d : D} {e : E} :
      s.tx? i = some t → t.snapshot = some d → c.outcome s t d = .error e →
      Move s a (s.put i none) [.failed i e]
  | committed {i : ℕ} {t : Tx D W L P} :
      s.tx? i = some t → c.done t.pc = true →
      Move s a { s.put i none with committed := c.replay t.writes s.committed } [.committed i]
  | rolledBack {i : ℕ} {t : Tx D W L P} :
      s.tx? i = some t → Move s a (s.put i none) [.rolledBack i]

/-- **Inversion of the step function.** -/
theorem step_move [DecidableEq L] {s s' : State D W L P} {a : Act R} {ev : List (Event E)}
    (h : c.step s a = some (s', ev)) : c.Move s a s' ev := by
  cases a with
  | begin r =>
    simp only [step, Option.some.injEq, Prod.mk.injEq] at h
    obtain ⟨rfl, rfl⟩ := h
    exact .begun r rfl
  | start i =>
    simp only [step] at h
    split at h
    · next t ht =>
      split at h
      · exact absurd h (by simp)
      · next hd =>
        simp only [Bool.or_eq_true, not_or, Bool.not_eq_true, Option.isSome_eq_false_iff,
          Option.isNone_iff_eq_none] at hd
        simp only [Option.some.injEq, Prod.mk.injEq] at h
        obtain ⟨rfl, rfl⟩ := h
        exact .started ht hd.1 hd.2
    · exact absurd h (by simp)
  | finish i =>
    simp only [step] at h
    split at h
    · next t ht =>
      split at h
      · next d hd =>
        split at h
        · exact absurd h (by simp)
        · next hfree =>
          have hfree' : ∀ l ∈ c.locks t.pc (c.replay t.writes d), s.heldByOther i l = false := by
            intro l hl
            simpa using fun hheld => hfree (List.any_eq_true.mpr ⟨l, hl, hheld⟩)
          split at h
          · next ws p hx =>
            simp only [Option.some.injEq, Prod.mk.injEq] at h
            obtain ⟨rfl, rfl⟩ := h
            exact .executed ht hd hfree' hx
          · next e hx =>
            simp only [Option.some.injEq, Prod.mk.injEq] at h
            obtain ⟨rfl, rfl⟩ := h
            exact .failed ht hd hx
      · exact absurd h (by simp)
    · exact absurd h (by simp)
  | commit i =>
    simp only [step] at h
    split at h
    · next t ht =>
      split at h
      · next hd =>
        simp only [Option.some.injEq, Prod.mk.injEq] at h
        obtain ⟨rfl, rfl⟩ := h
        exact .committed ht hd
      · exact absurd h (by simp)
    · exact absurd h (by simp)
  | rollback i =>
    simp only [step] at h
    split at h
    · next t ht =>
      simp only [Option.some.injEq, Prod.mk.injEq] at h
      obtain ⟨rfl, rfl⟩ := h
      exact .rolledBack ht
    · exact absurd h (by simp)

/-- **Only a commit changes what is committed.** -/
theorem committed_of_no_commit [DecidableEq L] {s s' : State D W L P} {a : Act R}
    {ev : List (Event E)} (h : c.step s a = some (s', ev)) (hev : ∀ i, .committed i ∉ ev) :
    s'.committed = s.committed := by
  cases c.step_move h with
  | begun r _ => rfl
  | started _ _ _ => rfl
  | executed _ _ _ _ => rfl
  | failed _ _ _ => rfl
  | @committed i t _ _ => exact absurd List.mem_cons_self (hev i)
  | rolledBack _ => rfl

/-! ## Locks -/

/-- No lock is held by two transactions. -/
def HeldExclusive (s : State D W L P) : Prop :=
  ∀ i j t u l, i ≠ j → s.tx? i = some t → s.tx? j = some u → l ∈ t.held → l ∉ u.held

/-- An open transaction of a grown table is an old one or the fresh one. -/
theorem tx?_begun {s : State D W L P} {r : R} {i : ℕ} {t : Tx D W L P}
    (h : State.tx? { s with txs := s.txs ++ [some (c.fresh r)] } i = some t) :
    s.tx? i = some t ∨ t = c.fresh r := by
  rcases getElem?_concat_cases (State.getElem?_of_tx? h) with hold | ⟨-, hnew⟩
  · left
    rw [State.tx?, hold]
    rfl
  · exact .inr (Option.some.inj hnew)

/-- **Locks are exclusive.** -/
theorem held_exclusive [DecidableEq L] {ok : List (Event E) → State D W L P → Act R → Prop}
    {d₀ : D} {tr : List (Event E)} {s : State D W L P} (h : (c.system d₀).Run ok tr s) :
    HeldExclusive s := by
  refine h.invariant (I := fun _ s => HeldExclusive s) ?_ ?_
  · rintro _ rfl i j t u l - ht
    exact absurd ht (by simp [State.tx?])
  · rintro _ s _ s' _ - - hs ih
    -- A transaction that gains no lock keeps the table exclusive.
    have hkeep : ∀ i t (v : Option (Tx D W L P)), s.tx? i = some t →
        (∀ t', v = some t' → t'.held = t.held) → HeldExclusive (s.put i v) := by
      intro i t v ht hv j k t₁ t₂ l hjk h₁ h₂ hl
      rw [State.tx?_put ht] at h₁ h₂
      by_cases hj : j = i
      · subst hj
        rw [if_pos rfl] at h₁
        rw [if_neg (Ne.symm hjk)] at h₂
        exact ih j k t t₂ l hjk ht h₂ (hv t₁ h₁ ▸ hl)
      · rw [if_neg hj] at h₁
        by_cases hk : k = i
        · subst hk
          rw [if_pos rfl] at h₂
          exact hv t₂ h₂ ▸ ih j k t₁ t l hjk h₁ ht hl
        · rw [if_neg hk] at h₂
          exact ih j k t₁ t₂ l hjk h₁ h₂ hl
    cases c.step_move hs with
    | begun r _ =>
      intro i j t u l hij ht hu hl
      rcases c.tx?_begun ht with ht | rfl
      · rcases c.tx?_begun hu with hu | rfl
        · exact ih i j t u l hij ht hu hl
        · exact List.not_mem_nil
      · exact absurd hl List.not_mem_nil
    | started ht _ _ => exact hkeep _ _ _ ht fun t' h' => by rw [← Option.some.inj h']
    | @executed i t d ws p ht _ hfree _ =>
      intro j k t₁ t₂ l hjk h₁ h₂ hl
      rw [State.tx?_put ht] at h₁ h₂
      by_cases hj : j = i
      · subst hj
        rw [if_pos rfl] at h₁
        rw [if_neg (Ne.symm hjk)] at h₂
        obtain rfl := Option.some.inj h₁
        rcases List.mem_append.mp hl with hl | hl
        · exact State.not_mem_held (hfree l hl) (Ne.symm hjk) h₂
        · exact ih j k t t₂ l hjk ht h₂ hl
      · rw [if_neg hj] at h₁
        by_cases hk : k = i
        · subst hk
          rw [if_pos rfl] at h₂
          obtain rfl := Option.some.inj h₂
          intro hl'
          rcases List.mem_append.mp hl' with hl' | hl'
          · exact State.not_mem_held (hfree l hl') hjk h₁ hl
          · exact ih j k t₁ t l hjk h₁ ht hl hl'
        · rw [if_neg hk] at h₂
          exact ih j k t₁ t₂ l hjk h₁ h₂ hl
    | failed ht _ _ => exact hkeep _ _ none ht fun _ h' => absurd h' (by simp)
    | committed ht _ => exact hkeep _ _ none ht fun _ h' => absurd h' (by simp)
    | rolledBack ht => exact hkeep _ _ none ht fun _ h' => absurd h' (by simp)

/-- **What a lock protects.**  When the writes that do not need the lock `l` leave `f`
alone, so does the commit of a transaction all of whose writes are covered by other locks. -/
theorem replay_protected {β : Type*} (f : D → β) (needs : W → L) {l : L}
    (hf : ∀ w d, needs w ≠ l → f (c.apply w d) = f d) {ws : List W} (h : ∀ w ∈ ws, needs w ≠ l)
    (d : D) : f (c.replay ws d) = f d := by
  induction ws generalizing d with
  | nil => rfl
  | cons w ws ih =>
    rw [c.replay_cons, ih fun v hv => h v (List.mem_cons_of_mem _ hv),
      hf w d (h w List.mem_cons_self)]

/-! ## The induction rule -/

/-- An assertion `Inv` about what is committed and an assertion `Own` about each open
transaction, for requests that satisfy `Ask`, with what has to be shown for them. -/
structure Assertions (d₀ : D) (Ask : R → Prop) (Inv : D → Prop) (Own : D → Tx D W L P → Prop) :
    Prop where
  init : Inv d₀
  fresh : ∀ d r, Ask r → Inv d → Own d (c.fresh r)
  start : ∀ d t, Inv d → Own d t → c.done t.pc = false → t.snapshot = none →
    Own d { t with snapshot := some d }
  exec : ∀ d t d' ws p, Inv d → Own d t → t.snapshot = some d' →
    c.exec t.pc (c.replay t.writes d') (c.replay t.writes d) = .ok (ws, p) →
    Own d (c.executed t d' ws p)
  commit : ∀ d t, Inv d → Own d t → c.done t.pc = true → Inv (c.replay t.writes d)
  /-- Another transaction commits, which holds other locks. -/
  other : ∀ d t u, Inv d → Own d t → Own d u → c.done u.pc = true →
    (∀ l ∈ t.held, l ∉ u.held) → Own (c.replay u.writes d) t

variable {c}

section Rule

variable [DecidableEq L] {ok : List (Event E) → State D W L P → Act R → Prop} {d₀ : D}
  {Ask : R → Prop} {Inv : D → Prop} {Own : D → Tx D W L P → Prop}

/-- **The induction rule for transactions.** -/
theorem Assertions.holds (hA : c.Assertions d₀ Ask Inv Own)
    (hask : ∀ tr s r, ok tr s (.begin r) → Ask r)
    {tr : List (Event E)} {s : State D W L P} (h : (c.system d₀).Run ok tr s) :
    Inv s.committed ∧ ∀ i t, s.tx? i = some t → Own s.committed t := by
  refine h.invariant
    (I := fun _ s => Inv s.committed ∧ ∀ i t, s.tx? i = some t → Own s.committed t) ?_ ?_
  · rintro _ rfl
    exact ⟨hA.init, fun i t ht => absurd ht (by simp [State.tx?])⟩
  · rintro tr s a s' ev hr ho hs ⟨hinv, hown⟩
    -- Without a commit only the transaction that moves has to be looked at.
    have hput : ∀ i t (v : Option (Tx D W L P)), s.tx? i = some t →
        (∀ t', v = some t' → Own s.committed t') →
        ∀ j t', (s.put i v).tx? j = some t' → Own s.committed t' := by
      intro i t v ht hv j t' hj
      rw [State.tx?_put ht] at hj
      split at hj
      · exact hv t' hj
      · exact hown j t' hj
    cases c.step_move hs with
    | begun r ha =>
      subst ha
      refine ⟨hinv, fun i t ht => ?_⟩
      rcases c.tx?_begun ht with ht | rfl
      · exact hown i t ht
      · exact hA.fresh _ r (hask _ _ _ ho) hinv
    | started ht hd hsn =>
      refine ⟨hinv, hput _ _ _ ht fun t' h' => ?_⟩
      rw [← Option.some.inj h']
      exact hA.start _ _ hinv (hown _ _ ht) hd hsn
    | executed ht hsn _ hx =>
      refine ⟨hinv, hput _ _ _ ht fun t' h' => ?_⟩
      rw [← Option.some.inj h']
      exact hA.exec _ _ _ _ _ hinv (hown _ _ ht) hsn hx
    | failed ht _ _ => exact ⟨hinv, hput _ _ none ht fun _ h' => absurd h' (by simp)⟩
    | @committed i u hu hd =>
      refine ⟨hA.commit _ _ hinv (hown _ _ hu) hd, fun j t hj => ?_⟩
      have hj' : (s.put i none).tx? j = some t := hj
      rw [State.tx?_put hu] at hj'
      split at hj'
      · exact absurd hj' (by simp)
      · next hne =>
        exact hA.other _ _ _ hinv (hown _ _ hj') (hown _ _ hu) hd fun l hl =>
          c.held_exclusive hr j i t u l hne hj' hu hl
    | rolledBack ht => exact ⟨hinv, hput _ _ none ht fun _ h' => absurd h' (by simp)⟩

/-- An error that the assertions rule out never happens. -/
theorem Assertions.never_fails (hA : c.Assertions d₀ Ask Inv Own)
    (hask : ∀ tr s r, ok tr s (.begin r) → Ask r) {e : E}
    (hne : ∀ d t d', Inv d → Own d t → t.snapshot = some d' →
      c.exec t.pc (c.replay t.writes d') (c.replay t.writes d) ≠ .error e)
    {tr : List (Event E)} {s : State D W L P} (h : (c.system d₀).Run ok tr s) (i : ℕ) :
    .failed i e ∉ tr := by
  refine h.invariant (I := fun tr _ => .failed i e ∉ tr) (fun _ _ => List.not_mem_nil) ?_
  rintro tr s a s' ev hr - hs ih hmem
  rcases List.mem_append.mp hmem with hev | htr
  · obtain ⟨hinv, hown⟩ := hA.holds hask hr
    cases c.step_move hs with
    | begun r _ => exact absurd hev List.not_mem_nil
    | started _ _ _ => exact absurd hev List.not_mem_nil
    | executed _ _ _ _ => exact absurd hev List.not_mem_nil
    | failed ht hsn hx =>
      obtain ⟨rfl, rfl⟩ := Event.failed.inj (List.mem_singleton.mp hev)
      exact hne _ _ _ hinv (hown _ _ ht) hsn hx
    | committed _ _ => exact absurd (List.mem_singleton.mp hev) (by simp)
    | rolledBack _ => exact absurd (List.mem_singleton.mp hev) (by simp)
  · exact ih htr

end Rule

end Client

end ReadCommitted
