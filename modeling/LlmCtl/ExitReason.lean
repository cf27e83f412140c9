/-
# Why a worker is gone

`stop_inner` sets the flag `stopping` before it sends a signal and clears it in its last section.
The wait task of a child reads the flag to tell a stop from a crash: only a crash is ever
restarted.  As long as no handler is dropped while it stops the worker, the flag is set exactly
while somebody does, so the wait task is always right.

A handler that is dropped in its stop leaves the flag behind, and the next crash passes for a
stop.
-/
import LlmCtl.Lifecycle

namespace LlmCtl

open EventSystem

/-! ## The flag -/

/-- Is the signal on its way or sent? -/
def StopPc.signals : StopPc → Bool
  | .term _ | .grace _ _ | .sleep _ _ | .killIfAlive _ => true
  | .readPid | .setStopping _ | .finish => false

/-- Has `stop_inner` come past the section that sets the flag? -/
def StopPc.pastFlag (pc : StopPc) : Bool := pc.signals || pc == .finish

/-- Somebody stops the worker. -/
def Sup.Stopping (s : Sup) : Prop :=
  ∃ caller pc, s.holder = some (.stopInner caller pc) ∧ pc.pastFlag = true

instance (s : Sup) : Decidable s.Stopping :=
  match h : s.holder with
  | some (.stopInner caller pc) =>
    if hp : pc.pastFlag = true then .isTrue ⟨caller, pc, h, hp⟩
    else .isFalse fun ⟨caller', pc', h', hp'⟩ => by
      obtain ⟨-, rfl⟩ := Crit.stopInner.inj (Option.some.inj (h.symm.trans h'))
      exact hp hp'
  | none => .isFalse fun ⟨_, _, h', _⟩ => absurd (h.symm.trans h') (by simp)
  | some (.startCheck _) | some (.startPid _) | some (.startReset _) | some (.recheck _)
  | some (.count _) | some (.spawn _ _ _) =>
    .isFalse fun ⟨_, _, h', _⟩ => absurd (h.symm.trans h') (by simp)

/-- No handler is dropped while the flag is set. -/
def KeepsStops (_ : List Event) (s : Sup) : Act → Prop
  | .dropHolder => s.st.stopping = false
  | _ => True

instance (tr : List Event) (s : Sup) (a : Act) : Decidable (KeepsStops tr s a) := by
  unfold KeepsStops
  split <;> infer_instance

/-- **The flag tells the truth**: it is set while the signals are sent and until the worker is
gone, and only while somebody stops the worker. -/
structure FlagOk (s : Sup) : Prop where
  signals : ∀ caller pc, s.holder = some (.stopInner caller pc) → pc.signals = true →
    s.st.stopping = true
  finish : ∀ caller, s.holder = some (.stopInner caller .finish) →
    s.st.stopping = true ∨ s.st.pid = none
  only : s.st.stopping = true → s.Stopping

section Step

variable {cfg : Config} {s s' : Sup} {a : Act} {ev : List Event}

/-- The owner is outside `stop_inner`, and the flag is not set. -/
theorem flagOk_outside (hflag : s.st.stopping = false)
    (hh : ∀ caller pc, s.holder = some (.stopInner caller pc) → pc.signals = false)
    (hfin : ∀ caller, s.holder ≠ some (.stopInner caller .finish)) : FlagOk s where
  signals := fun caller pc hc hp => absurd ((hh caller pc hc).symm.trans hp) (by simp)
  finish := fun caller hc => absurd hc (hfin caller)
  only := fun h => absurd (hflag.symm.trans h) (by simp)

/-- Where nobody stops the worker the flag is not set. -/
theorem FlagOk.not_stopping (h : FlagOk s) (hn : ¬ s.Stopping) : s.st.stopping = false :=
  Bool.eq_false_iff.mpr fun hs => hn (h.only hs)

theorem not_stopping_of_holder {c : Crit} (hc : s.holder = some c)
    (hn : ∀ caller pc, c = .stopInner caller pc → pc.pastFlag = false) : ¬ s.Stopping := by
  rintro ⟨caller, pc, hh, hp⟩
  obtain rfl := Option.some.inj (hc.symm.trans hh)
  exact absurd ((hn caller pc rfl).symm.trans hp) (by simp)

theorem not_stopping_of_free (hc : s.holder = none) : ¬ s.Stopping := by
  rintro ⟨caller, pc, hh, -⟩
  exact absurd (hc.symm.trans hh) (by simp)

/-- The lock is given back, or its owner goes on, outside of `stop_inner`'s signals. -/
theorem FlagOk.leaves (h : FlagOk s) {c : Crit} (hc : s.holder = some c)
    (hn : ∀ caller pc, c = .stopInner caller pc → pc.pastFlag = false)
    (hflag : s'.st.stopping = s.st.stopping)
    (hh : ∀ caller pc, s'.holder = some (.stopInner caller pc) → pc.pastFlag = false) :
    FlagOk s' := by
  have hoff := h.not_stopping (not_stopping_of_holder hc hn)
  refine flagOk_outside (hflag.trans hoff) (fun caller pc hc' => ?_) fun caller hc' => ?_
  · have hp := hh caller pc hc'
    rw [StopPc.pastFlag, Bool.or_eq_false_iff] at hp
    exact hp.1
  · exact absurd (hh caller .finish hc') (by decide)

/-- A step that leaves the owner and the record's pid and flag alone. -/
theorem FlagOk.same (h : FlagOk s) (hh : s'.holder = s.holder)
    (hflag : s'.st.stopping = s.st.stopping) (hpid : s.st.pid = none → s'.st.pid = none) :
    FlagOk s' where
  signals := fun caller pc hc hp => hflag.trans (h.signals caller pc (hh ▸ hc) hp)
  finish := fun caller hc => by
    rcases h.finish caller (hh ▸ hc) with hs | hnone
    · exact .inl (hflag.trans hs)
    · exact .inr (hpid hnone)
  only := fun hs => by
    obtain ⟨caller, pc, hc, hp⟩ := h.only (hflag ▸ hs)
    exact ⟨caller, pc, hh.trans hc, hp⟩

/-- The owner goes on in `stop_inner`, past its flag. -/
theorem FlagOk.goesOn (hflag : s'.st.stopping = true) {caller : StopCaller} {pc : StopPc}
    (hc : s'.holder = some (.stopInner caller pc)) (hp : pc.pastFlag = true) : FlagOk s' where
  signals := fun _ _ _ _ => hflag
  finish := fun _ _ => .inl hflag
  only := fun _ => ⟨caller, pc, hc, hp⟩

/-- A call begins to stop the worker at the reading of the pid. -/
theorem Waiter.entry_readPid (w : Waiter) {caller : StopCaller} {pc : StopPc}
    (h : w.entry = .stopInner caller pc) : pc = .readPid := by
  cases w with
  | startModel m | maybeRestart m => exact absurd h (by simp [Waiter.entry])
  | stop | shutdown => exact ((Crit.stopInner.inj h).2).symm

@[simp] theorem childExited_stopping (st : WorkerState) (pid : ℕ) :
    (st.childExited pid).stopping = st.stopping := by
  unfold WorkerState.childExited
  split <;> rfl

@[simp] theorem pollResult_stopping (st : WorkerState) (ok : Bool) (status : WorkerStatus)
    (startedAt : Option ℕ) (now : ℕ) :
    (st.pollResult ok status startedAt now).stopping = st.stopping := by
  rw [WorkerState.pollResult_eq]

/-- **Every step keeps the flag true**, but for a handler that is dropped in its stop. -/
theorem Step.flagOk {tr : List Event} (hs : Step cfg s a ev s') (hok : KeepsStops tr s a)
    (h : FlagOk s) : FlagOk s' := by
  cases hs with
  | waitSection i c hc hw =>
    refine h.same rfl (by simp) fun hnone => ?_
    rcases s.st.childExited_cases c.pid with ⟨-, heq⟩ | ⟨-, hgone, -⟩
    · simpa [heq] using hnone
    · exact hgone
  | dropHolder c hc hh ha =>
    exact flagOk_outside hok (fun caller pc hc' => absurd hc' (by simp)) (by simp)
  | grant w ws hh hq =>
    have hoff := h.not_stopping (not_stopping_of_free hh)
    refine flagOk_outside hoff (fun caller pc hc' => ?_) fun caller hc' => ?_
    · rw [w.entry_readPid (Option.some.inj hc')]
      rfl
    · exact absurd (w.entry_readPid (Option.some.inj hc')) (by simp)
  | move c c' hc hm =>
    cases hm with
    | readPid caller pid hp =>
      refine h.leaves hc (fun _ _ heq => ?_) rfl fun _ _ heq => ?_
      · obtain ⟨-, rfl⟩ := Crit.stopInner.inj heq
        rfl
      · obtain ⟨-, rfl⟩ := Crit.stopInner.inj (Option.some.inj heq)
        rfl
    | noPid caller hp =>
      have hoff := h.not_stopping (not_stopping_of_holder hc fun _ _ heq => by
        obtain ⟨-, rfl⟩ := Crit.stopInner.inj heq
        rfl)
      refine ⟨fun _ pc heq hsig => ?_, fun _ _ => .inr hp, fun hs => ?_⟩
      · obtain ⟨-, rfl⟩ := Crit.stopInner.inj (Option.some.inj heq)
        exact absurd hsig (by decide)
      · exact absurd (hoff.symm.trans hs) (by simp)
    | graceOver caller pid left => exact .goesOn (h.signals caller _ hc rfl) rfl rfl
    | sleep caller pid left => exact .goesOn (h.signals caller _ hc rfl) rfl rfl
    | slept caller pid left => exact .goesOn (h.signals caller _ hc rfl) rfl rfl
    | gone caller pid hp => exact .goesOn (h.signals caller _ hc rfl) rfl rfl
    | stopFirst m hp =>
      refine h.leaves hc (by simp) rfl fun _ _ heq => ?_
      obtain ⟨-, rfl⟩ := Crit.stopInner.inj (Option.some.inj heq)
      rfl
    | _ => exact h.leaves hc (by simp) rfl (by simp)
  | running m hc => exact h.leaves hc (by simp) rfl (by simp)
  | setStopping caller pid hc => exact .goesOn rfl rfl rfl
  | term caller pid hc | termFails caller pid hc =>
    exact .goesOn (h.signals caller _ hc rfl) rfl rfl
  | kill caller pid hc | killFails caller pid hc =>
    exact .goesOn (h.signals caller _ hc rfl) rfl rfl
  | finish caller hc =>
    refine flagOk_outside (by simp) (fun caller' pc hc' => ?_) fun caller' hc' => ?_
    · cases caller <;> simp [afterStop] at hc'
    · cases caller <;> simp [afterStop] at hc'
  | reset m hc => exact h.leaves hc (by simp) rfl (by simp)
  | spawnReturn caller m ok pc hc hpc => exact h.leaves hc (by simp) (by simp) (by simp)
  | begin caller m hc => exact flagOk_outside rfl (by simp) (by simp)
  | launched caller m pid hc hp => exact h.leaves hc (by simp) rfl (by simp)
  | execFailed caller m e hc => exact h.leaves hc (by simp) rfl (by simp)
  | failed caller m e hc => exact h.leaves hc (by simp) (by simp) (by simp)
  | record caller m child pid hc => exact h.leaves hc (by simp) (by simp) (by simp)
  | recovered m hc hcr => exact h.leaves hc (by simp) rfl (by simp)
  | count m hc =>
    rcases countStep_cases s m cfg with ⟨heq, -⟩ | ⟨heq, -⟩
    · rw [heq]
      exact h.leaves hc (by simp) rfl (by simp)
    · rw [heq]
      refine h.leaves hc (by simp) rfl fun _ _ hc' => ?_
      obtain ⟨-, rfl⟩ := Crit.stopInner.inj (Option.some.inj hc')
      rfl
  | write ok status startedAt hp => exact h.same rfl (by simp) (by simp)
  | _ => exact h.same rfl rfl id

end Step

/-- The flag tells the truth in every run in which no handler is dropped in its stop. -/
theorem flagOk_of_run {cfg : Config} {tr : List Event} {s : Sup}
    (h : (supervisor cfg).Run KeepsStops tr s) : FlagOk s := by
  refine h.invariant (I := fun _ s => FlagOk s) ?_ ?_
  · rintro s ⟨autostart, rfl⟩
    refine flagOk_outside rfl ?_ ?_
    · cases autostart <;> simp [Sup.init]
    · cases autostart <;> simp [Sup.init]
  · intro tr s a s' ev _ hok hs hflag
    exact (step_cases hs).flagOk hok hflag

/-! ## Results -/

/-- **The wait task is right**: the exit of the current worker is noted as a stop if somebody is
stopping it, and as a crash otherwise, whatever the order of the steps. -/
theorem exit_reason {cfg : Config} {tr ev : List Event} {s s' : Sup} {i : ℕ}
    (h : (supervisor cfg).Run KeepsStops tr s)
    (hs : step cfg s (.waitSection i) = some (s', ev)) (hcurrent : s.st.pid.isSome = true)
    (hgone : s'.st.pid = none) :
    s'.st.status = if s.Stopping then .stopped else .crashed "worker exited unexpectedly" := by
  have hflag := flagOk_of_run h
  simp only [step] at hs
  split at hs
  · next c hc =>
    split at hs
    · obtain ⟨rfl, rfl⟩ := Prod.mk.inj (Option.some.inj hs)
      have hpid : s.st.pid = some c.pid := by
        by_contra hne
        have hsame : (s.st.childExited c.pid).pid = none := hgone
        rw [WorkerState.childExited_of_ne hne] at hsame
        simp [hsame] at hcurrent
      have hiff : s.st.stopping = true ↔ s.Stopping := by
        refine ⟨hflag.only, ?_⟩
        rintro ⟨caller, pc, hh, hp⟩
        rw [StopPc.pastFlag, Bool.or_eq_true, beq_iff_eq] at hp
        rcases hp with hsig | rfl
        · exact hflag.signals caller pc hh hsig
        · refine (hflag.finish caller hh).resolve_right fun hnone => ?_
          simp [hnone] at hcurrent
      simp only [WorkerState.childExited, hpid, if_true, hiff]
    · exact absurd hs (by simp)
  · exact absurd hs (by simp)

/-- A worker that is stopped exits, and its wait task comes before the last section. -/
theorem exit_reason_stopped :
    ∃ tr s s' ev, (supervisor sampleConfig).Run KeepsStops tr s ∧ s.Stopping ∧
      step sampleConfig s (.waitSection 0) = some (s', ev) ∧ s'.st.status = .stopped := by
  have hreach := Run.reaches (supervisor sampleConfig) KeepsStops
    (startFully modelA 7 ++ [.callStop, .grant, .run, .run, .run, .exit 0, .reap 0])
    (fun _ s => decide s.Stopping && s.st.pid.isSome &&
      (step sampleConfig s (.waitSection 0)).any fun r => r.1.st.pid.isNone)
    ⟨none, rfl⟩ (by decide) (by decide)
  obtain ⟨tr, s, hrun, hp⟩ := hreach
  simp only [Bool.and_eq_true, decide_eq_true_eq] at hp
  obtain ⟨⟨hstop, hcurrent⟩, hany⟩ := hp
  obtain ⟨⟨s', ev⟩, hx, hnone⟩ := (Option.any_eq_true _ _).mp hany
  refine ⟨tr, s, s', ev, hrun, hstop, hx, ?_⟩
  rw [exit_reason hrun hx hcurrent (by simpa using hnone), if_pos hstop]

/-- A handler is dropped in its stop: the worker lives on, crashes a minute later, and the crash
passes for a stop. -/
theorem dropped_stop_hides_crash :
    ∃ tr s s' ev, (supervisor sampleConfig).Run Anything tr s ∧ ¬ s.Stopping ∧
      step sampleConfig s (.waitSection 0) = some (s', ev) ∧ s.st.pid.isSome = true ∧
      s'.st.status = .stopped := by
  have hreach := Run.reaches (supervisor sampleConfig) Anything
    (startFully modelA 7 ++ [.callStop, .grant, .run, .run, .run, .run, .dropHolder] ++
      [.tick 60000, .exit 0, .reap 0])
    (fun _ s => !decide s.Stopping && s.st.pid.isSome &&
      (step sampleConfig s (.waitSection 0)).any fun r => decide (r.1.st.status = .stopped))
    ⟨none, rfl⟩ (admits_anything _ _ _) (by decide)
  obtain ⟨tr, s, hrun, hp⟩ := hreach
  simp only [Bool.and_eq_true, Bool.not_eq_true', decide_eq_false_iff_not] at hp
  obtain ⟨⟨hnot, hcurrent⟩, hany⟩ := hp
  obtain ⟨⟨s', ev⟩, hx, hstopped⟩ := (Option.any_eq_true _ _).mp hany
  exact ⟨tr, s, s', ev, hrun, hnot, hx, hcurrent, of_decide_eq_true hstopped⟩

end LlmCtl
