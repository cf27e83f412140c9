/-
# Is a deliberate stop final?

After a call of `stop` has returned, no worker should be spawned before a later
`start_model` gets the lock.  One thing breaks this: `poll` takes its snapshot of the
status before `stop_inner` clears it, and writes `Crashed` afterwards, which the next
`maybe_restart` takes for a crash.  In every run in which the writing section of `poll`
has no such verdict to write while a stop stands, a stop is final.

The invariant is `Halted`: no pid, no crash, and nobody owns the lock but a restart about
to be turned away or another stop.
-/
import LlmCtl.SingleWorker

namespace LlmCtl

open EventSystem WorkerState

/-! ## The property -/

/-- Has some `stop` returned since the last `start_model` got the lock? -/
def stopStands : List Event → Bool
  | [] => false
  | .stopReturned _ :: _ => true
  | .acquired (.startModel _) :: _ => false
  | _ :: tr => stopStands tr

/-- A stop is final: no child is launched while it stands. -/
def StopIsFinal : List Event → Prop :=
  Each fun before e => ∀ caller i m, e = .launched caller i m → stopStands before = false

/-! ## The condition -/

/-- While a stop stands, `poll` does not write `Crashed`. -/
def NoLateCrash (tr : List Event) (s : Sup) (a : Act) : Prop :=
  a.isPoll = true → stopStands tr = true → ∀ v ∈ s.poller.verdict s.clock, v.isCrashed = false

instance (tr : List Event) (s : Sup) (a : Act) : Decidable (NoLateCrash tr s a) :=
  inferInstanceAs (Decidable (a.isPoll = true → stopStands tr = true →
    ∀ v ∈ s.poller.verdict s.clock, v.isCrashed = false))

/-! ## The invariant -/

/-- Owners that do not lead to a launch as long as no pid and no crash is recorded. -/
def Crit.Harmless : Crit → Prop
  | .recheck _ => True
  | .stopInner caller pc =>
    (caller = .stop ∨ caller = .shutdown) ∧ (pc = .readPid ∨ pc = .finish)
  | _ => False

/-- No pid is recorded, and nobody owns the lock but a restart that still has to look or
a stop. -/
structure AtRest (s : Sup) : Prop where
  pid : s.st.pid = none
  owner : ∀ c, s.holder = some c → c.Harmless

theorem Waiter.entry_harmless {w : Waiter} (h : ∀ m, w ≠ .startModel m) :
    w.entry.Harmless := by
  cases w with
  | startModel m => exact absurd rfl (h m)
  | stop => exact ⟨.inl rfl, .inl rfl⟩
  | maybeRestart m => trivial
  | shutdown => exact ⟨.inr rfl, .inl rfl⟩

theorem CritMove.harmless {s : Sup} {c c' : Crit} (hm : CritMove s c c')
    (hpid : s.st.pid = none) (hcalm : ∀ m, c = .recheck m → s.st.status.isCrashed = false)
    (hc : c.Harmless) : c'.Harmless := by
  cases hm with
  | readPid caller pid hsome => exact absurd (hpid.symm.trans hsome) (by simp)
  | noPid caller _ => exact ⟨hc.1, .inr rfl⟩
  | recheck m hcr => exact absurd ((hcalm m rfl).symm.trans hcr) (by simp)
  | graceOver | sleep | slept | gone => exact absurd hc.2 (by simp)
  | _ => exact hc.elim

/-- The owner goes on at a harmless point, or the lock is free. -/
theorem AtRest.moved {s s' : Sup} (h : AtRest s) (hp : s'.st.pid = s.st.pid)
    (ho : ∀ c, s'.holder = some c → c.Harmless) : AtRest s' :=
  ⟨hp.trans h.pid, ho⟩

/-- The owner stays where it is. -/
theorem AtRest.same {s s' : Sup} (h : AtRest s) (hp : s'.st.pid = s.st.pid)
    (hh : s'.holder = s.holder) : AtRest s' :=
  h.moved hp (by rw [hh]; exact h.owner)

/-- The last section of `stop_inner`, for a caller that returns then. -/
theorem atRest_finish (s : Sup) {caller : StopCaller}
    (h : caller = .stop ∨ caller = .shutdown) :
    AtRest (afterStop { s with st := s.st.markStopped } caller).1 := by
  rcases h with rfl | rfl <;> exact ⟨rfl, fun c hc => absurd hc (by simp [afterStop])⟩

/-- Every step keeps the supervisor at rest, unless `start_model` gets the lock or a restart
finds a crash. -/
theorem Step.atRest {cfg : Config} {s s' : Sup} {a : Act} {ev : List Event}
    (hs : Step cfg s a ev s') (h : AtRest s) (hstart : ∀ m, .acquired (.startModel m) ∉ ev)
    (hcalm : ∀ m, s.holder = some (.recheck m) → s.st.status.isCrashed = false) :
    AtRest s' := by
  cases hs with
  | waitSection i c hc hw =>
    have hne : s.st.pid ≠ some c.pid := by simp [h.pid]
    exact h.same (by rw [childExited_of_ne hne]) rfl
  | dropHolder c hc hh ha => exact h.moved rfl (by simp)
  | grant w ws hh hq =>
    refine h.moved rfl fun c hc => ?_
    obtain rfl : w.entry = c := by simpa using hc
    apply Waiter.entry_harmless
    intro m hm
    exact hstart m (by simp [hm])
  | move c c' hc hm =>
    refine h.moved rfl fun d hd => ?_
    obtain rfl : c' = d := by simpa using hd
    exact hm.harmless h.pid (fun m hcm => hcalm m (hcm ▸ hc)) (h.owner c hc)
  | setStopping caller pid hc => exact absurd (h.owner _ hc).2 (by simp)
  | term caller pid hc | termFails caller pid hc => exact absurd (h.owner _ hc).2 (by simp)
  | kill caller pid hc | killFails caller pid hc => exact absurd (h.owner _ hc).2 (by simp)
  | finish caller hc => exact atRest_finish s (h.owner _ hc).1
  | recovered m hc hcr => exact h.moved rfl (by simp)
  | running m hc => exact (h.owner _ hc).elim
  | reset m hc => exact (h.owner _ hc).elim
  | spawnReturn caller m ok pc hc hpc => exact (h.owner _ hc).elim
  | begin caller m hc => exact (h.owner _ hc).elim
  | launched caller m pid hc hp => exact (h.owner _ hc).elim
  | execFailed caller m e hc => exact (h.owner _ hc).elim
  | failed caller m e hc => exact (h.owner _ hc).elim
  | record caller m child pid hc => exact (h.owner _ hc).elim
  | count m hc => exact (h.owner _ hc).elim
  | write ok status startedAt hp => exact h.same (by simp) rfl
  | _ => exact h.same rfl rfl

/-- At rest only the writing section of `poll` records a crash. -/
theorem Step.crashed_atRest {cfg : Config} {s s' : Sup} {a : Act} {ev : List Event}
    (hs : Step cfg s a ev s') (h : AtRest s) (hcr : s'.st.status.isCrashed = true) :
    s.st.status.isCrashed = true ∨
      a.isPoll = true ∧ s'.poller = .flag ∧
        ∃ v ∈ s.poller.verdict s.clock, v.isCrashed = true := by
  cases hs with
  | waitSection i c hc hw =>
    have hne : s.st.pid ≠ some c.pid := by simp [h.pid]
    left
    rwa [childExited_of_ne hne] at hcr
  | finish caller hc => exact absurd hcr (by simp)
  | reset m hc => exact (h.owner _ hc).elim
  | setStopping caller pid hc => exact absurd (h.owner _ hc).2 (by simp)
  | spawnReturn caller m ok pc hc hpc => exact (h.owner _ hc).elim
  | begin caller m hc => exact (h.owner _ hc).elim
  | failed caller m e hc => exact (h.owner _ hc).elim
  | record caller m child pid hc => exact (h.owner _ hc).elim
  | count m hc => exact (h.owner _ hc).elim
  | write ok status startedAt hp =>
    have hst : (s.st.pollResult ok status startedAt s.clock).status.isCrashed = true := hcr
    rw [pollResult_status] at hst
    cases hv : pollVerdict ok status startedAt s.clock with
    | none =>
      rw [hv] at hst
      exact .inl hst
    | some v =>
      rw [hv] at hst
      exact .inr ⟨rfl, rfl, v, by simp [hp, Poller.verdict, hv], hst⟩
  | _ => exact .inl hcr

/-- **The supervisor after a stop**: at rest, and no crash is recorded. -/
structure Halted (s : Sup) : Prop extends AtRest s where
  calm : s.st.status.isCrashed = false

theorem Step.halted {cfg : Config} {s s' : Sup} {a : Act} {ev : List Event}
    (hs : Step cfg s a ev s') (h : Halted s) (hstart : ∀ m, .acquired (.startModel m) ∉ ev)
    (hpoll : a.isPoll = true → ∀ v ∈ s.poller.verdict s.clock, v.isCrashed = false) :
    Halted s' := by
  refine ⟨hs.atRest h.toAtRest hstart fun _ _ => h.calm, ?_⟩
  cases hcr : s'.st.status.isCrashed with
  | false => rfl
  | true =>
    rcases hs.crashed_atRest h.toAtRest hcr with hbefore | ⟨ha, -, v, hv, hvcr⟩
    · exact absurd (h.calm.symm.trans hbefore) (by simp)
    · exact absurd ((hpoll ha v hv).symm.trans hvcr) (by simp)

/-- A stop that stands after a step was made by it, or stood before. -/
theorem stopStands_append {ev tr : List Event} (h : stopStands (ev ++ tr) = true) :
    (∃ final, .stopReturned final ∈ ev) ∨
      (stopStands tr = true ∧ ∀ m, .acquired (.startModel m) ∉ ev) := by
  induction ev with
  | nil => exact .inr ⟨h, by simp⟩
  | cons e ev ih =>
    cases e with
    | stopReturned final => exact .inl ⟨final, List.mem_cons_self⟩
    | acquired w =>
      cases w with
      | startModel m => exact absurd h (by simp [stopStands])
      | _ =>
        rcases ih h with ⟨final, hf⟩ | ⟨hstands, hno⟩
        · exact .inl ⟨final, List.mem_cons_of_mem _ hf⟩
        · exact .inr ⟨hstands, fun m hm => hno m (by simpa using hm)⟩
    | _ =>
      rcases ih h with ⟨final, hf⟩ | ⟨hstands, hno⟩
      · exact .inl ⟨final, List.mem_cons_of_mem _ hf⟩
      · exact .inr ⟨hstands, fun m hm => hno m (by simpa using hm)⟩

/-- **While a stop stands, the supervisor is halted.** -/
theorem halted_of_run {cfg : Config} {tr : List Event} {s : Sup}
    (h : (supervisor cfg).Run NoLateCrash tr s) : stopStands tr = true → Halted s := by
  refine h.invariant (I := fun tr s => stopStands tr = true → Halted s) ?_ ?_
  · intro s _ hstands
    exact absurd hstands (by simp [stopStands])
  · intro tr s a s' ev _ hok hs ih hstands
    have hstep := step_cases hs
    rcases stopStands_append hstands with ⟨final, hf⟩ | ⟨hbefore, hno⟩
    · obtain ⟨caller, hcaller, -, rfl⟩ := hstep.of_stopReturned hf
      exact ⟨atRest_finish s (hcaller.imp And.left And.left), by simp⟩
    · exact hstep.halted (ih hbefore) hno fun ha => hok ha hbefore

/-! ## Results -/

/-- **A stop is final** in every run in which no writing section of `poll` has a crash to
write while the stop stands. -/
theorem stop_final_of_no_late_crash {cfg : Config} {tr : List Event} {s : Sup}
    (h : (supervisor cfg).Run NoLateCrash tr s) : StopIsFinal tr := by
  refine h.each fun tr s a s' ev hrun _ hs htr => ?_
  by_cases hl : ∃ caller i m, .launched caller i m ∈ ev
  · obtain ⟨caller, i, m, hmem⟩ := hl
    obtain ⟨rfl, -, hc⟩ := (step_cases hs).of_launched hmem
    refine ⟨fun _ _ _ _ => ?_, htr⟩
    show stopStands tr = false
    -- The owner is in `spawn`, where no halted supervisor can be.
    cases hstands : stopStands tr with
    | false => rfl
    | true => exact ((halted_of_run hrun hstands).owner _ hc).elim
  · exact htr.append fun e he before caller i m hem => absurd ⟨caller, i, m, hem ▸ he⟩ hl

/-- The worker exits by itself and is stopped afterwards; nothing is launched. -/
theorem stop_final_of_no_late_crash_exited :
    ∃ tr s, (supervisor sampleConfig).Run NoLateCrash tr s ∧ stopStands tr = true ∧
      StopIsFinal tr := by
  have hreach := Run.reaches (supervisor sampleConfig) NoLateCrash
    (List.flatten [startFully modelA 7, pollOnce (some 0), pollRest,
      [.exit 0, .reap 0, .waitSection 0, .callStop, .grant, .run, .run, .poll, .poll, .poll,
        .poll]])
    (fun tr _ => stopStands tr) ⟨none, rfl⟩ (by decide) (by decide)
  obtain ⟨tr, s, hrun, hstands⟩ := hreach
  exact ⟨tr, s, hrun, hstands, stop_final_of_no_late_crash hrun⟩

/-- **A revived worker**: the daemon runs orderly, a health probe is under way when `stop`
is called, and the snapshot taken before the last section of `stop_inner` is `Ready`. -/
theorem late_crash_revives :
    ∃ tr s, (supervisor sampleConfig).Run (Orderly sampleConfig) tr s ∧ ¬ StopIsFinal tr := by
  have hreach := Run.reaches (supervisor sampleConfig) (Orderly sampleConfig)
    (List.flatten [startFully modelA 7, pollOnce (some 0), pollRest, [.poll, .poll, .poll],
      [.callStop, .grant, .run, .run, .run, .exit 0, .run, .run],
      -- The probe of the dead worker fails, and the status is still `Ready`.
      [.probeAnswer none, .poll, .run, .poll, .poll, .poll],
      -- The restart finds a crash under the lock.
      [.grant, .run, .run, .run, .run, .run, .run, .exec (.spawned 8)]])
    (fun tr _ => lastSatisfies (fun before e => e = .launched .maybeRestart 1 modelA ∧
      stopStands before = true) tr) ⟨none, rfl⟩ (by decide) (by decide)
  obtain ⟨tr, s, hrun, hlast⟩ := hreach
  refine ⟨tr, s, hrun, not_each_of_last hlast fun before e he hfinal => ?_⟩
  obtain ⟨hlaunched, hstands⟩ := of_decide_eq_true he
  exact absurd ((hfinal .maybeRestart 1 modelA hlaunched).symm.trans hstands) (by simp)

end LlmCtl
