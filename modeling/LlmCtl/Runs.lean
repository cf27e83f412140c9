/-
# Runs of a system that emits observable events

A system of concurrent tasks is given by its initial states and by a step
function: an action names the task that moves (and how the environment answers
it), and a step yields the next state together with the events an observer
sees.  `EventSystem.Run ok tr s` says that `s` is reached by a run whose events
are `tr`, NEWEST FIRST, and each of whose steps was allowed by `ok`; the filter
`ok` sees the events so far and the state before the step.

* `Run.invariant` is the induction rule: what holds initially and is kept by every
  allowed step holds of every run;
* `Run.mono` weakens the filter;
* `Each P tr` says that each event fits the events before it, `Run.each` proves it, and
  `not_each_of_last` refutes it;
* `Run.exec` turns a list of actions into a run, so that concrete runs are
  computed and not derived by hand;
* `exec_keeps` is induction over the actions from a state, and `Run.exec_composes` over those that
  follow a run;
* `Run.project` carries a run along a simulation;
* `observe` is the same system with another observer.
-/
import Mathlib.Logic.Basic
import Mathlib.Tactic.TypeStar

/-- A system with observable events. -/
structure EventSystem (σ α ε : Type*) where
  init : σ → Prop
  /-- The next state and the events of the step, newest first; `none` when the
  action is not enabled. -/
  step : σ → α → Option (σ × List ε)

namespace EventSystem

variable {σ α ε : Type*}

/-- The filter that allows every step. -/
def Anything (_ : List ε) (_ : σ) (_ : α) : Prop := True

/-- `S.Run ok tr s`: a run with events `tr` (newest first) that ends in `s`,
all of whose steps satisfy `ok`. -/
inductive Run (S : EventSystem σ α ε) (ok : List ε → σ → α → Prop) :
    List ε → σ → Prop
  | start {s : σ} : S.init s → Run S ok [] s
  | next {tr ev : List ε} {s s' : σ} {a : α} :
      Run S ok tr s → ok tr s a → S.step s a = some (s', ev) → Run S ok (ev ++ tr) s'

variable {S : EventSystem σ α ε} {ok : List ε → σ → α → Prop}

/-- **Induction over runs.**  The step case may use that its source is itself
reached by a run. -/
theorem Run.invariant {I : List ε → σ → Prop}
    (hinit : ∀ s, S.init s → I [] s)
    (hstep : ∀ tr s a s' ev, S.Run ok tr s → ok tr s a → S.step s a = some (s', ev) →
      I tr s → I (ev ++ tr) s')
    {tr : List ε} {s : σ} (h : S.Run ok tr s) : I tr s := by
  induction h with
  | start hs => exact hinit _ hs
  | next hr hok hs ih => exact hstep _ _ _ _ _ hr hok hs ih

/-- A run stays a run under a weaker filter. -/
theorem Run.mono {ok' : List ε → σ → α → Prop} (hok : ∀ tr s a, ok tr s a → ok' tr s a)
    {tr : List ε} {s : σ} (h : S.Run ok tr s) : S.Run ok' tr s := by
  induction h with
  | start hs => exact .start hs
  | next _ ho hs ih => exact .next ih (hok _ _ _ ho) hs

/-! ## Properties of the events -/

/-- `Each P tr`: every event of `tr` satisfies `P` with the events before it. -/
def Each (P : List ε → ε → Prop) : List ε → Prop
  | [] => True
  | e :: tr => P tr e ∧ Each P tr

/-- Appending events that satisfy `P` whatever came before them. -/
theorem Each.append {P : List ε → ε → Prop} {ev tr : List ε} (h : Each P tr)
    (hev : ∀ e ∈ ev, ∀ before, P before e) : Each P (ev ++ tr) := by
  induction ev with
  | nil => exact h
  | cons e ev ih =>
    exact ⟨hev e List.mem_cons_self _, ih fun d hd => hev d (List.mem_cons_of_mem _ hd)⟩

/-- Does the last event satisfy `p`, given the events before it? -/
def lastSatisfies (p : List ε → ε → Bool) : List ε → Bool
  | [] => false
  | e :: before => p before e

/-- A last event that does not fit the events before it. -/
theorem not_each_of_last {P : List ε → ε → Prop} {p : List ε → ε → Bool} {tr : List ε}
    (h : lastSatisfies p tr = true) (hp : ∀ before e, p before e = true → ¬ P before e) :
    ¬ Each P tr := by
  cases tr with
  | nil => exact absurd h Bool.false_ne_true
  | cons e before => exact fun heach => hp before e h heach.1

/-- A function of the events that looks past each of the events `ev` looks past all of them. -/
theorem ignores_append {β : Type*} {f : List ε → β} {ev tr : List ε}
    (h : ∀ e ∈ ev, ∀ before, f (e :: before) = f before) : f (ev ++ tr) = f tr := by
  induction ev with
  | nil => rfl
  | cons e ev ih =>
    have hrest : f (ev ++ tr) = f tr := ih fun d hd => h d (List.mem_cons_of_mem _ hd)
    rw [List.cons_append, h e List.mem_cons_self, hrest]

/-- **Induction over the events of a run**: what every allowed step emits is as `P` says. -/
theorem Run.each {P : List ε → ε → Prop}
    (hstep : ∀ tr s a s' ev, S.Run ok tr s → ok tr s a → S.step s a = some (s', ev) →
      Each P tr → Each P (ev ++ tr))
    {tr : List ε} {s : σ} (h : S.Run ok tr s) : Each P tr := by
  induction h with
  | start _ => trivial
  | next hr hok hs ih => exact hstep _ _ _ _ _ hr hok hs ih

/-! ## Executing a list of actions -/

/-- Perform the actions in order; the events come out newest first. -/
def exec (S : EventSystem σ α ε) : σ → List α → Option (σ × List ε)
  | s, [] => some (s, [])
  | s, a :: as =>
    match S.step s a with
    | none => none
    | some (s₁, ev) =>
      match exec S s₁ as with
      | none => none
      | some (s', tr) => some (s', tr ++ ev)

/-- Actions, and then other ones. -/
theorem exec_append {s s₁ s₂ : σ} {as bs : List α} {ev₁ ev₂ : List ε}
    (h₁ : S.exec s as = some (s₁, ev₁)) (h₂ : S.exec s₁ bs = some (s₂, ev₂)) :
    S.exec s (as ++ bs) = some (s₂, ev₂ ++ ev₁) := by
  induction as generalizing s ev₁ with
  | nil =>
    obtain ⟨rfl, rfl⟩ := Prod.mk.inj (Option.some.inj h₁)
    rw [List.nil_append, List.append_nil, h₂]
  | cons a as ih =>
    simp only [exec] at h₁
    split at h₁
    · exact absurd h₁ (by simp)
    · next s' ev hs =>
      split at h₁
      · exact absurd h₁ (by simp)
      · next s'' ev' hx =>
        obtain ⟨rfl, rfl⟩ := Prod.mk.inj (Option.some.inj h₁)
        simp only [List.cons_append, exec, hs, ih hx, List.append_assoc]

/-- Every step that `exec` takes along the actions satisfies `ok`. -/
def Admits (S : EventSystem σ α ε) (ok : List ε → σ → α → Prop) :
    List ε → σ → List α → Prop
  | _, _, [] => True
  | tr, s, a :: as =>
    ok tr s a ∧
      match S.step s a with
      | none => True
      | some (s₁, ev) => Admits S ok (ev ++ tr) s₁ as

/-- A decidable filter can be checked along a list of actions. -/
def decideAdmits (S : EventSystem σ α ε) {ok : List ε → σ → α → Prop}
    [∀ tr s a, Decidable (ok tr s a)] :
    (tr : List ε) → (s : σ) → (as : List α) → Decidable (S.Admits ok tr s as)
  | _, _, [] => .isTrue trivial
  | tr, s, a :: as =>
    have : Decidable (match S.step s a with
        | none => True
        | some (s₁, ev) => Admits S ok (ev ++ tr) s₁ as) :=
      match S.step s a with
      | none => .isTrue trivial
      | some (s₁, ev) => decideAdmits S (ev ++ tr) s₁ as
    inferInstanceAs (Decidable (_ ∧ _))

instance [∀ tr s a, Decidable (ok tr s a)] (tr : List ε) (s : σ) (as : List α) :
    Decidable (S.Admits ok tr s as) := S.decideAdmits tr s as

/-- Executing admitted actions extends a run. -/
theorem Run.exec {as : List α} {tr ev : List ε} {s s' : σ} (h : S.Run ok tr s)
    (hok : S.Admits ok tr s as) (hx : S.exec s as = some (s', ev)) :
    S.Run ok (ev ++ tr) s' := by
  induction as generalizing tr ev s with
  | nil =>
    simp only [EventSystem.exec, Option.some.injEq, Prod.mk.injEq] at hx
    obtain ⟨rfl, rfl⟩ := hx
    exact h
  | cons a as ih =>
    obtain ⟨hoka, hrest⟩ := hok
    simp only [EventSystem.exec] at hx
    cases hs : S.step s a with
    | none => simp [hs] at hx
    | some p =>
      obtain ⟨s₁, ev₁⟩ := p
      simp only [hs] at hx hrest
      cases hx' : S.exec s₁ as with
      | none => simp [hx'] at hx
      | some q =>
        obtain ⟨s₂, ev₂⟩ := q
        simp only [hx', Option.some.injEq, Prod.mk.injEq] at hx
        obtain ⟨rfl, rfl⟩ := hx
        rw [List.append_assoc]
        exact ih (h.next hoka hs) hrest hx'

/-- **A computed run**: perform the actions from an initial state and test the result. -/
theorem Run.reaches (S : EventSystem σ α ε) (ok : List ε → σ → α → Prop) {s₀ : σ}
    (as : List α) (p : List ε → σ → Bool) (h₀ : S.init s₀) (hok : S.Admits ok [] s₀ as)
    (hx : (S.exec s₀ as).any (fun r => p r.2 r.1) = true) :
    ∃ tr s, S.Run ok tr s ∧ p tr s = true := by
  obtain ⟨⟨s, tr⟩, hr, hp⟩ := (Option.any_eq_true _ _).mp hx
  refine ⟨tr, s, ?_, hp⟩
  simpa using (Run.start h₀).exec hok hr

/-- Without a filter every list of actions is admitted. -/
theorem admits_anything (tr : List ε) (s : σ) (as : List α) :
    S.Admits Anything tr s as := by
  induction as generalizing tr s with
  | nil => trivial
  | cons a as ih =>
    refine ⟨trivial, ?_⟩
    split
    · trivial
    · exact ih _ _

/-- Actions that are allowed wherever they are performed are admitted. -/
theorem admits_of_forall {as : List α} (h : ∀ a ∈ as, ∀ tr s, ok tr s a) (tr : List ε) (s : σ) :
    S.Admits ok tr s as := by
  induction as generalizing tr s with
  | nil => trivial
  | cons a as ih =>
    refine ⟨h a List.mem_cons_self _ _, ?_⟩
    split
    · trivial
    · exact ih (fun b hb => h b (List.mem_cons_of_mem _ hb)) _ _

/-- A run without a filter goes on with any actions that can be performed. -/
theorem Run.perform {tr ev : List ε} {s : σ} (as : List α) (s' : σ)
    (h : S.Run Anything tr s) (hx : S.exec s as = some (s', ev)) :
    S.Run Anything (ev ++ tr) s' := h.exec (admits_anything tr s as) hx

/-- What each step keeps is kept by the actions. -/
theorem exec_keeps {I : σ → Prop}
    (hstep : ∀ s a s' ev, S.step s a = some (s', ev) → I s → I s') {as : List α} {s s' : σ}
    {ev : List ε} (hx : S.exec s as = some (s', ev)) (hs : I s) : I s' := by
  induction as generalizing s ev with
  | nil =>
    obtain ⟨rfl, -⟩ := Prod.mk.inj (Option.some.inj hx)
    exact hs
  | cons a as ih =>
    simp only [EventSystem.exec] at hx
    split at hx
    · exact absurd hx (by simp)
    · next s₁ ev₁ hfirst =>
      split at hx
      · exact absurd hx (by simp)
      · next s₂ ev₂ hrest =>
        obtain ⟨rfl, -⟩ := Prod.mk.inj (Option.some.inj hx)
        exact ih hrest (hstep s a s₁ ev₁ hfirst hs)

/-- **Induction over the actions that go on from a run.**  `T s as ev s'` relates two states
with the actions and the events between them; it has to hold of no actions, and to be kept when
one more comes first. -/
theorem Run.exec_composes {T : σ → List α → List ε → σ → Prop} (hnil : ∀ s, T s [] [] s)
    (hcons : ∀ tr s a s₁ ev as s' ev', S.Run Anything tr s → S.step s a = some (s₁, ev) →
      T s₁ as ev' s' → T s (a :: as) (ev' ++ ev) s')
    {as : List α} {tr ev : List ε} {s s' : σ} (h : S.Run Anything tr s)
    (hx : S.exec s as = some (s', ev)) : T s as ev s' := by
  induction as generalizing tr s ev with
  | nil =>
    obtain ⟨rfl, rfl⟩ := Prod.mk.inj (Option.some.inj hx)
    exact hnil s
  | cons a as ih =>
    simp only [EventSystem.exec] at hx
    split at hx
    · exact absurd hx (by simp)
    · next s₁ ev₁ hs =>
      split at hx
      · exact absurd hx (by simp)
      · next s₂ ev₂ hx' =>
        obtain ⟨rfl, rfl⟩ := Prod.mk.inj (Option.some.inj hx)
        exact hcons tr s a s₁ ev₁ as s₂ ev₂ h hs (ih (h.next trivial hs) hx')

/-! ## Simulation -/

/-- **Projection of runs.**  When every allowed step of a run of `S` is matched by one step
of `T` with the projected events, or by none at all, the run projects to a run of `T`. -/
theorem Run.project {σ' α' ε' : Type*} {T : EventSystem σ' α' ε'}
    {ok' : List ε' → σ' → α' → Prop} (f : σ → σ') (g : List ε → List ε')
    (hg : g [] = []) (happ : ∀ ev tr, g (ev ++ tr) = g ev ++ g tr)
    (hinit : ∀ s, S.init s → T.init (f s))
    (hstep : ∀ tr s a s' ev, S.Run ok tr s → ok tr s a → S.step s a = some (s', ev) →
      (f s' = f s ∧ g ev = []) ∨
        ∃ b, ok' (g tr) (f s) b ∧ T.step (f s) b = some (f s', g ev))
    {tr : List ε} {s : σ} (h : S.Run ok tr s) : T.Run ok' (g tr) (f s) := by
  induction h with
  | start hs => rw [hg]; exact .start (hinit _ hs)
  | next hr ho hs ih =>
    rw [happ]
    rcases hstep _ _ _ _ _ hr ho hs with ⟨hf, hev⟩ | ⟨b, hb, hT⟩
    · rw [hf, hev]
      exact ih
    · exact .next ih hb hT

/-! ## Other observers -/

/-- The same system, of which an observer sees what `see` makes of a state and an action. -/
def observe {ω : Type*} (S : EventSystem σ α ε) (see : σ → α → List ω) : EventSystem σ α ω where
  init := S.init
  step := fun s a => (S.step s a).map fun r => (r.1, see s a)

/-- A step of the observed system is a step of the system. -/
theorem observe_step {ω : Type*} {see : σ → α → List ω} {s s' : σ} {a : α} {ev : List ω}
    (h : (S.observe see).step s a = some (s', ev)) :
    ev = see s a ∧ ∃ ev', S.step s a = some (s', ev') := by
  obtain ⟨⟨s₁, ev'⟩, hs, heq⟩ := Option.map_eq_some_iff.mp h
  obtain ⟨rfl, rfl⟩ := Prod.mk.inj heq
  exact ⟨rfl, ev', hs⟩

/-- What is reached under another observer is reached. -/
theorem Run.of_observe {ω : Type*} {see : σ → α → List ω} {tr : List ω} {s : σ}
    (h : (S.observe see).Run Anything tr s) : ∃ tr', S.Run Anything tr' s := by
  induction h with
  | start hs => exact ⟨[], .start hs⟩
  | next _ _ hs ih =>
    obtain ⟨tr', hrun⟩ := ih
    obtain ⟨-, ev', hstep⟩ := observe_step hs
    exact ⟨_, .next hrun trivial hstep⟩

end EventSystem
