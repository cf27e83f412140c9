/-
# Tasks over a shared state

A task of a concurrent program reads and writes the shared state in atomic sections, asks its
environment (the network, the clock, the disk) between them, and returns a value.  Between two of
its sections other tasks may have changed the state at will, so a section may meet any state.

* `Writes` collects the sections of all executions: the state before and the state after;
* `ReadOnly` says that none of them changes the state, and composes (`ReadOnly.bind`);
* `Writes.of_bind` and `Writes.of_read_bind` find the section of a sequence in one of its tasks;
* `Runs` is an execution that nobody disturbs; `ReadOnly.runs_eq` says that one of a read-only
  task ends in the state in which it began;
* `Returns` says what the results of such executions are;
* `Ensures` says so of all executions, and composes (`Ensures.bind`);
* `Execution` is one execution, with all that the task does in it; what those of a sequence are
  is read off its first operation (`execution_read_bind_iff` and the like).

A task that is dropped before it returns has performed some of the sections of an execution.
-/
import Mathlib.Tactic.TypeStar

/-! ## Tasks -/

/-- A task with a result in `α`.  `access` is a section, after which the task goes on with the
state that the section met; a task that has panicked has no result. -/
inductive Resumption (σ α : Type) : Type 1 where
  | done (a : α)
  | access (u : σ → σ) (next : σ → Resumption σ α)
  | ask (β : Type) (next : β → Resumption σ α)
  | panicked

namespace Resumption

variable {σ α β : Type}

/-- One task, and then the next one, given the result of the first. -/
def bind (p : Resumption σ α) (f : α → Resumption σ β) : Resumption σ β :=
  match p with
  | .done a => f a
  | .access u next => .access u fun s => (next s).bind f
  | .ask γ next => .ask γ fun c => (next c).bind f
  | .panicked => .panicked

instance : Monad (Resumption σ) where
  pure := .done
  bind := .bind

/-- A section that reads. -/
def read (f : σ → α) : Resumption σ α := .access id fun s => .done (f s)

/-- A section that writes. -/
def write (u : σ → σ) : Resumption σ Unit := .access u fun _ => .done ()

/-- What the environment says. -/
def hear (β : Type) : Resumption σ β := .ask β .done

/-! ## Executions -/

/-- Some execution has a section that takes the state from the first to the second. -/
inductive Writes : Resumption σ α → σ → σ → Prop
  | here (u : σ → σ) (next : σ → Resumption σ α) (s : σ) : Writes (.access u next) s (u s)
  /-- The section before it may have met another state. -/
  | later {u : σ → σ} {next : σ → Resumption σ α} {s s' : σ} (s₀ : σ) :
      Writes (next s₀) s s' → Writes (.access u next) s s'
  | answered {γ : Type} {next : γ → Resumption σ α} {s s' : σ} (c : γ) :
      Writes (next c) s s' → Writes (.ask γ next) s s'

/-- The task by itself: it begins in the first state and returns in the second. -/
inductive Runs : Resumption σ α → σ → α → σ → Prop
  | done (a : α) (s : σ) : Runs (.done a) s a s
  | access {u : σ → σ} {next : σ → Resumption σ α} {s s' : σ} {a : α} :
      Runs (next s) (u s) a s' → Runs (.access u next) s a s'
  | ask {γ : Type} {next : γ → Resumption σ α} {s s' : σ} {a : α} (c : γ) :
      Runs (next c) s a s' → Runs (.ask γ next) s a s'

/-- **No section changes the state**, whatever it meets and whatever the environment says. -/
def ReadOnly (p : Resumption σ α) : Prop := ∀ s s', p.Writes s s' → s' = s

/-! ## Read-only tasks -/

theorem readOnly_done (a : α) : ReadOnly (.done a : Resumption σ α) :=
  fun _ _ h => nomatch h

theorem readOnly_panicked : ReadOnly (.panicked : Resumption σ α) :=
  fun _ _ h => nomatch h

theorem readOnly_access {u : σ → σ} {next : σ → Resumption σ α} (hu : ∀ s, u s = s)
    (hnext : ∀ s, (next s).ReadOnly) : ReadOnly (.access u next) := by
  intro s s' h
  cases h with
  | here => exact hu s
  | later s₀ h => exact hnext s₀ s s' h

theorem readOnly_ask {next : β → Resumption σ α} (hnext : ∀ b, (next b).ReadOnly) :
    ReadOnly (.ask β next) := by
  intro s s' h
  cases h with
  | answered b h => exact hnext b s s' h

theorem readOnly_pure (a : α) : ReadOnly (pure a : Resumption σ α) := readOnly_done a

theorem readOnly_read (f : σ → α) : ReadOnly (read f) :=
  readOnly_access (fun _ => rfl) fun s => readOnly_done (f s)

theorem readOnly_hear : ReadOnly (hear β : Resumption σ β) := readOnly_ask readOnly_done

theorem readOnly_ite {c : Prop} [Decidable c] {p q : Resumption σ α} (hp : c → p.ReadOnly)
    (hq : ¬ c → q.ReadOnly) : (if c then p else q).ReadOnly := by
  split
  · next hc => exact hp hc
  · next hc => exact hq hc

/-- **A sequence of read-only tasks is read-only.** -/
theorem ReadOnly.bind {p : Resumption σ α} {f : α → Resumption σ β} (hp : p.ReadOnly)
    (hf : ∀ a, (f a).ReadOnly) : (p >>= f).ReadOnly := by
  show (p.bind f).ReadOnly
  induction p with
  | done a => exact hf a
  | access u next ih =>
    refine readOnly_access (fun s => hp s (u s) (.here u next s)) fun s => ih s ?_
    exact fun t t' h => hp t t' (.later s h)
  | ask γ next ih =>
    refine readOnly_ask fun c => ih c ?_
    exact fun t t' h => hp t t' (.answered c h)
  | panicked => exact readOnly_panicked

/-! ## The sections of a sequence -/

/-- A section of a sequence is one of the two. -/
theorem Writes.of_bind {p : Resumption σ α} {f : α → Resumption σ β} {s s' : σ}
    (h : (p >>= f).Writes s s') : p.Writes s s' ∨ ∃ a, (f a).Writes s s' := by
  have hbind : (p.bind f).Writes s s' := h
  clear h
  induction p generalizing s with
  | done a => exact .inr ⟨a, hbind⟩
  | access u next ih =>
    cases hbind with
    | here => exact .inl (.here u next s)
    | later s₀ h => exact (ih s₀ h).imp_left (.later s₀)
  | ask γ next ih =>
    cases hbind with
    | answered c h => exact (ih c h).imp_left (.answered c)
  | panicked => exact nomatch hbind

/-- After a section that reads, what is read is a value of some state. -/
theorem Writes.of_read_bind {g : σ → α} {f : α → Resumption σ β} {s s' : σ}
    (h : (read g >>= f).Writes s s') : s' = s ∨ ∃ s₀, (f (g s₀)).Writes s s' := by
  cases h with
  | here => exact .inl rfl
  | later s₀ h => exact .inr ⟨s₀, h⟩

/-! ## Undisturbed executions -/

theorem runs_pure (a : α) (s : σ) : Runs (pure a : Resumption σ α) s a s := .done a s

theorem runs_read (f : σ → α) (s : σ) : Runs (read f) s (f s) s := .access (.done _ _)

theorem runs_write (u : σ → σ) (s : σ) : Runs (write u) s () (u s) := .access (.done _ _)

theorem runs_hear (b : β) (s : σ) : Runs (hear β : Resumption σ β) s b s := .ask b (.done _ _)

/-- Executions in sequence. -/
theorem Runs.bind {p : Resumption σ α} {f : α → Resumption σ β} {s t s' : σ} {a : α} {b : β}
    (hp : p.Runs s a t) (hf : (f a).Runs t b s') : (p >>= f).Runs s b s' := by
  show (p.bind f).Runs s b s'
  induction hp with
  | done a s => exact hf
  | access _ ih => exact .access (ih hf)
  | ask c _ ih => exact .ask c (ih hf)

/-- An execution of a sequence is one of the first task, and then one of the second. -/
theorem Runs.of_bind {p : Resumption σ α} {f : α → Resumption σ β} {s s' : σ} {b : β}
    (h : (p >>= f).Runs s b s') : ∃ a t, p.Runs s a t ∧ (f a).Runs t b s' := by
  have hbind : (p.bind f).Runs s b s' := h
  clear h
  induction p generalizing s with
  | done a => exact ⟨a, s, .done a s, hbind⟩
  | access u next ih =>
    obtain _ | hnext | _ := hbind
    obtain ⟨a, t, hp, hf⟩ := ih s hnext
    exact ⟨a, t, .access hp, hf⟩
  | ask γ next ih =>
    obtain _ | _ | ⟨c, hnext⟩ := hbind
    obtain ⟨a, t, hp, hf⟩ := ih c hnext
    exact ⟨a, t, .ask c hp, hf⟩
  | panicked => exact nomatch hbind

/-- **Every result is as `P` says**, whatever the environment says. -/
def Returns (p : Resumption σ α) (P : α → Prop) : Prop := ∀ s a s', p.Runs s a s' → P a

theorem returns_pure {P : α → Prop} {a : α} (h : P a) : Returns (pure a : Resumption σ α) P := by
  intro s b s' hrun
  cases hrun
  exact h

/-- The results of a sequence are those of the second task. -/
theorem returns_bind {p : Resumption σ α} {f : α → Resumption σ β} {P : β → Prop}
    (hf : ∀ a, (f a).Returns P) : (p >>= f).Returns P := by
  intro s b s' h
  obtain ⟨a, t, -, hnext⟩ := h.of_bind
  exact hf a t b s' hnext

/-- **Every result is as `P` says**, whatever the sections meet and the environment says. -/
def Ensures (P : α → Prop) : Resumption σ α → Prop
  | .done a => P a
  | .access _ next => ∀ s, (next s).Ensures P
  | .ask _ next => ∀ c, (next c).Ensures P
  | .panicked => True

theorem ensures_pure {P : α → Prop} {a : α} (h : P a) :
    (pure a : Resumption σ α).Ensures P := h

theorem ensures_true (p : Resumption σ α) : p.Ensures fun _ => True := by
  induction p with
  | done a => trivial
  | access u next ih => exact ih
  | ask γ next ih => exact ih
  | panicked => trivial

theorem Ensures.bind {p : Resumption σ α} {f : α → Resumption σ β} {P : α → Prop} {Q : β → Prop}
    (hp : p.Ensures P) (hf : ∀ a, P a → (f a).Ensures Q) : (p >>= f).Ensures Q := by
  show (p.bind f).Ensures Q
  induction p with
  | done a => exact hf a hp
  | access u next ih => exact fun s => ih s (hp s)
  | ask γ next ih => exact fun c => ih c (hp c)
  | panicked => trivial

/-- What the first task returns does not matter. -/
theorem ensures_bind {p : Resumption σ α} {f : α → Resumption σ β} {Q : β → Prop}
    (hf : ∀ a, (f a).Ensures Q) : (p >>= f).Ensures Q :=
  (ensures_true p).bind fun a _ => hf a

theorem Ensures.imp {p : Resumption σ α} {P Q : α → Prop} (hp : p.Ensures P)
    (h : ∀ a, P a → Q a) : p.Ensures Q := by
  induction p with
  | done a => exact h a hp
  | access u next ih => exact fun s => ih s (hp s)
  | ask γ next ih => exact fun c => ih c (hp c)
  | panicked => trivial

/-- What all executions ensure is what the undisturbed ones return. -/
theorem Ensures.returns {p : Resumption σ α} {P : α → Prop} (h : p.Ensures P) : p.Returns P := by
  intro s a s' hrun
  induction hrun with
  | done a s => exact h
  | access _ ih => exact ih (h _)
  | ask c _ ih => exact ih (h c)

/-- **A read-only task ends in the state in which it began**, when it is by itself. -/
theorem ReadOnly.runs_eq {p : Resumption σ α} {s s' : σ} {a : α} (hp : p.ReadOnly)
    (h : p.Runs s a s') : s' = s := by
  induction h with
  | done a s => rfl
  | @access u next s s' a _ ih =>
    have hsame : u s = s := hp s (u s) (.here u next s)
    rw [ih fun t t' ht => hp t t' (.later s ht), hsame]
  | ask b _ ih => exact ih fun t t' ht => hp t t' (.answered b ht)

/-! ## Executions among other tasks -/

/-- What a task does in an execution: a section, with the state that it meets and the one that it
leaves, or an answer of the environment. -/
inductive Seen (σ : Type) : Type 1 where
  | access (s s' : σ)
  | heard {γ : Type} (c : γ)

/-- **An execution**: all that the task does, and what it returns, or nothing if it panics.  The
sections may meet any states, since other tasks run between them. -/
inductive Execution : Resumption σ α → List (Seen σ) → Option α → Prop
  | done (a : α) : Execution (.done a) [] (some a)
  | access {u : σ → σ} {next : σ → Resumption σ α} {s : σ} {tr : List (Seen σ)} {r : Option α} :
      Execution (next s) tr r → Execution (.access u next) (.access s (u s) :: tr) r
  | ask {γ : Type} {next : γ → Resumption σ α} {c : γ} {tr : List (Seen σ)} {r : Option α} :
      Execution (next c) tr r → Execution (.ask γ next) (.heard c :: tr) r
  | panicked : Execution .panicked [] none

section Execution

variable {tr : List (Seen σ)} {r : Option β}

theorem execution_pure_iff {b : β} :
    (pure b : Resumption σ β).Execution tr r ↔ tr = [] ∧ r = some b := by
  constructor
  · rintro ⟨⟩
    exact ⟨rfl, rfl⟩
  · rintro ⟨rfl, rfl⟩
    exact .done b

/-- A section that reads, and what follows. -/
theorem execution_read_bind_iff {g : σ → α} {f : α → Resumption σ β} :
    (read g >>= f).Execution tr r ↔
      ∃ s rest, tr = .access s s :: rest ∧ (f (g s)).Execution rest r := by
  constructor
  · intro h
    cases h with
    | access h => exact ⟨_, _, rfl, h⟩
  · rintro ⟨s, rest, rfl, h⟩
    exact .access h

/-- A section that writes, and what follows. -/
theorem execution_write_bind_iff {u : σ → σ} {f : Unit → Resumption σ β} :
    (write u >>= f).Execution tr r ↔
      ∃ s rest, tr = .access s (u s) :: rest ∧ (f ()).Execution rest r := by
  constructor
  · intro h
    cases h with
    | access h => exact ⟨_, _, rfl, h⟩
  · rintro ⟨s, rest, rfl, h⟩
    exact .access h

/-- An answer, and what follows. -/
theorem execution_hear_bind_iff {f : α → Resumption σ β} :
    (hear α >>= f).Execution tr r ↔
      ∃ c : α, ∃ rest, tr = .heard c :: rest ∧ (f c).Execution rest r := by
  constructor
  · intro h
    cases h with
    | ask h => exact ⟨_, _, rfl, h⟩
  · rintro ⟨c, rest, rfl, h⟩
    exact .ask h

/-- The sections of an execution are sections of the task. -/
theorem Execution.writes {p : Resumption σ β} {s s' : σ} (h : p.Execution tr r)
    (hmem : .access s s' ∈ tr) : p.Writes s s' := by
  induction h with
  | done b => exact absurd hmem List.not_mem_nil
  | @access u next s₀ tr r _ ih =>
    rcases List.mem_cons.mp hmem with heq | hrest
    · obtain ⟨rfl, rfl⟩ := Seen.access.inj heq
      exact .here u next s
    · exact .later s₀ (ih hrest)
  | ask _ ih =>
    rcases List.mem_cons.mp hmem with heq | hrest
    · exact absurd heq (by simp)
    · exact .answered _ (ih hrest)
  | panicked => exact absurd hmem List.not_mem_nil

end Execution

/-- Sequences of three tasks. -/
theorem bind_assoc {γ : Type} (p : Resumption σ α) (f : α → Resumption σ β)
    (g : β → Resumption σ γ) : (p >>= f) >>= g = p >>= fun a => f a >>= g := by
  show (p.bind f).bind g = p.bind fun a => (f a).bind g
  induction p with
  | done a => rfl
  | access u next ih => exact congrArg (Resumption.access u) (funext ih)
  | ask δ next ih => exact congrArg (Resumption.ask δ) (funext ih)
  | panicked => rfl

end Resumption
