/-
# How often a crashed worker is restarted

The cap on restarts is counted from the last reset, and every `start_model` resets the counter.
What holds whatever the panel does is the cooldown: `maybe_restart` wants a restart only when the
last one is more than five seconds old.  It decides that before it waits for `lifecycle` and
counts the restart after that; since only one restart is ever pending, what it has decided still
holds then.

So the restarts are paid for by the clock: `Sup.rested` is the time since the last one, as far
as it counts, and a restart uses up all of it.
-/
import LlmCtl.RestartCap

namespace LlmCtl

open EventSystem

/-! ## The time since the last restart -/

/-- Five seconds.  `elapsed()` is finer than a millisecond, so a restart may come right after. -/
def cooldown : ℕ := 5000

/-- The time since the last restart, up to the cooldown. -/
def Sup.rested (s : Sup) : ℕ :=
  match s.st.lastRestart with
  | none => cooldown
  | some t => min cooldown (s.clock - t)

theorem Sup.rested_le (s : Sup) : s.rested ≤ cooldown := by
  unfold rested
  split
  · exact Nat.le_refl _
  · exact Nat.min_le_left _ _

/-- A restart that is wanted is due. -/
theorem Sup.rested_of_wantRestart {s : Sup} {worker : Worker}
    (h : s.st.wantRestart worker s.clock = true) : s.rested = cooldown := by
  simp only [WorkerState.wantRestart, Bool.and_eq_true] at h
  obtain ⟨-, hcool⟩ := h
  unfold rested
  split
  · rfl
  · next t ht =>
    rw [ht] at hcool
    have hlt : 5000 < s.clock - t := of_decide_eq_true hcool
    exact Nat.min_eq_left hlt.le

/-- As long as no restart is counted the clock is the only one to pay. -/
theorem Sup.rested_of_clock {s s' : Sup} (h : s'.st.lastRestart = s.st.lastRestart)
    (hclock : s.clock ≤ s'.clock) :
    s.rested ≤ s'.rested ∧ s'.rested + s.clock ≤ s.rested + s'.clock := by
  unfold rested
  rw [h]
  cases s.st.lastRestart with
  | none => simp only; omega
  | some t => simp only; omega

/-! ## What a step does to it -/

/-- Is a restart counted, and not launched yet? -/
def RestartPhase.owes : RestartPhase → Bool
  | .stopping | .launching => true
  | .outside | .deciding => false

def Sup.owes (s : Sup) : ℕ := s.phase.owes.toNat

section Step

variable {cfg : Config} {s s' : Sup} {a : Act} {ev : List Event}

/-- **A step that counts a restart**, or none. -/
inductive Counts (s s' : Sup) (ev : List Event) : Prop
  | none (hlast : s'.st.lastRestart = s.st.lastRestart) (hclock : s.clock ≤ s'.clock)
      (hev : .restartCounted ∉ ev)
  | counted (m : Model) (hc : s.holder = some (.count m)) (hclock : s'.clock = s.clock)
      (hlast : s'.st.lastRestart = some s.clock) (hev : ev.count .restartCounted = 1)
      (hc' : s'.holder = some (.stopInner (.maybeRestart m) .readPid)) (hq : s'.queue = s.queue)

theorem spawnReturned_not_counted (t : Sup) (m : Model) (ok : Bool) (caller : Spawner) :
    .restartCounted ∉ (spawnReturned t m ok caller).2 := fun h =>
  absurd (spawnReturned_events t m ok caller _ h) (by simp)

@[simp] theorem childExited_lastRestart (st : WorkerState) (pid : ℕ) :
    (st.childExited pid).lastRestart = st.lastRestart := by
  unfold WorkerState.childExited
  split <;> rfl

@[simp] theorem pollResult_lastRestart (st : WorkerState) (ok : Bool) (status : WorkerStatus)
    (startedAt : Option ℕ) (now : ℕ) :
    (st.pollResult ok status startedAt now).lastRestart = st.lastRestart := by
  rw [WorkerState.pollResult_eq]

@[simp] theorem afterStop_clock (t : Sup) (caller : StopCaller) :
    (afterStop t caller).1.clock = t.clock := by
  cases caller <;> rfl

theorem Step.counts (hs : Step cfg s a ev s') : Counts s s' ev := by
  cases hs with
  | tick ms => exact .none rfl (Nat.le_add_right _ _) List.not_mem_nil
  | waitSection i c hc hw => exact .none (by simp) (Nat.le_refl _) List.not_mem_nil
  | finish caller hc =>
    refine .none (by simp) (by simp) ?_
    cases caller <;> simp [afterStop]
  | spawnReturn caller m ok pc hc hpc =>
    exact .none (by simp) (by simp) (spawnReturned_not_counted _ _ _ _)
  | failed caller m e hc => exact .none (by simp) (by simp) (spawnReturned_not_counted _ _ _ _)
  | record caller m child pid hc =>
    exact .none (by simp) (by simp) (spawnReturned_not_counted _ _ _ _)
  | count m hc =>
    rcases countStep_cases s m cfg with ⟨heq, -⟩ | ⟨heq, hev⟩
    · rw [heq]
      exact .none rfl (Nat.le_refl _) (by simp)
    · rw [heq]
      refine .counted m hc rfl rfl ?_ rfl rfl
      rcases hev with ⟨-, hev⟩ | ⟨-, hev⟩ <;> rw [hev] <;> rfl
  | write ok status startedAt hp => exact .none (by simp) (Nat.le_refl _) (by simp)
  | _ => exact .none rfl (Nat.le_refl _) (by simp)

/-- A restart becomes pending only where the poller decides on it. -/
theorem Step.undecided (hs : Step cfg s a ev s') (h : s'.undecided) :
    s.undecided ∨ s.st.wantRestart cfg.worker s.clock = true := by
  -- the queue has no new restart, and the owner does not begin one
  have hkeep : s'.queue.countP Waiter.isRestart ≤ s.queue.countP Waiter.isRestart →
      (s'.phase = .deciding → s.undecided) → s.undecided := by
    intro hq hphase
    rcases h with hqueue | hdec
    · exact .inl (Nat.lt_of_lt_of_le hqueue hq)
    · exact hphase hdec
  have hout : s'.queue.countP Waiter.isRestart ≤ s.queue.countP Waiter.isRestart →
      s'.phase ≠ .deciding → s.undecided := fun hq hne => hkeep hq fun hdec => absurd hdec hne
  cases hs with
  | call w hw hm =>
    refine .inl (hkeep ?_ fun hdec => .inr hdec)
    simp [Waiter.isRestart_of_isHandler hw]
  | dropWaiting n w hn hw =>
    refine .inl (hkeep ?_ fun hdec => .inr hdec)
    exact Nat.le_of_eq (countP_eraseIdx_of_false hn (Waiter.isRestart_of_isHandler hw))
  | dropHolder c hc hh ha =>
    exact .inl (hout (Nat.le_refl _) (by simp [Sup.phase]))
  | grant w ws hh hq =>
    refine .inl (hkeep (by simp [hq, List.countP_cons]) fun hdec => .inl ?_)
    have hw : w.isRestart = true := by
      cases w <;> simp_all [Sup.phase, Waiter.entry, Crit.phase, Waiter.isRestart]
    simp [hq, hw]
  | move c c' hc hm =>
    refine .inl (hkeep (Nat.le_refl _) fun hdec => .inr ?_)
    rw [Sup.phase_of_holder hc, ← hm.phase]
    exact hdec
  | running m hc => exact .inl (hout (Nat.le_refl _) (by simp [Sup.phase]))
  | setStopping caller pid hc =>
    exact .inl (hout (Nat.le_refl _) (by cases caller <;> simp [Sup.phase, Crit.phase]))
  | term caller pid hc | termFails caller pid hc =>
    exact .inl (hout (Nat.le_refl _) (by cases caller <;> simp [Sup.phase, Crit.phase]))
  | kill caller pid hc | killFails caller pid hc =>
    exact .inl (hout (Nat.le_refl _) (by cases caller <;> simp [Sup.phase, Crit.phase]))
  | finish caller hc =>
    exact .inl (hout (by simp) (by cases caller <;> simp [afterStop, Sup.phase, Crit.phase]))
  | reset m hc => exact .inl (hout (Nat.le_refl _) (by simp [Sup.phase, Crit.phase]))
  | spawnReturn caller m ok pc hc hpc =>
    exact .inl (hout (by simp) (by simp [spawnReturned_phase]))
  | begin caller m hc =>
    exact .inl (hout (Nat.le_refl _) (by cases caller <;> simp [Sup.phase, Crit.phase]))
  | launched caller m pid hc hp =>
    exact .inl (hout (Nat.le_refl _) (by cases caller <;> simp [Sup.phase, Crit.phase]))
  | execFailed caller m e hc =>
    exact .inl (hout (Nat.le_refl _) (by cases caller <;> simp [Sup.phase, Crit.phase]))
  | failed caller m e hc => exact .inl (hout (by simp) (by simp [spawnReturned_phase]))
  | record caller m child pid hc => exact .inl (hout (by simp) (by simp [spawnReturned_phase]))
  | recovered m hc hcr => exact .inl (hout (Nat.le_refl _) (by simp [Sup.phase]))
  | count m hc => exact .inl (.inr (by simp [Sup.phase_of_holder hc, Crit.phase]))
  | want m hp hm hw => exact .inr hw
  | drained hm hh => exact .inl (hkeep (by simp [Waiter.isRestart]) fun hdec => .inr hdec)
  | _ => exact .inl h

theorem Sup.owes_of_free {t : Sup} (h : t.holder = none) : t.owes = 0 := by
  rw [Sup.owes, Sup.phase_of_free h]
  rfl

theorem Sup.owes_of_holder {t : Sup} {c : Crit} (h : t.holder = some c) :
    t.owes = c.phase.owes.toNat := by
  rw [Sup.owes, Sup.phase_of_holder h]

theorem spawnReturned_not_relaunch (t : Sup) (m : Model) (ok : Bool) (caller : Spawner) :
    (spawnReturned t m ok caller).2.countP Event.isRelaunch = 0 := by
  refine List.countP_eq_zero.mpr fun e he => ?_
  rw [spawnReturned_events t m ok caller e he]
  simp [Event.isRelaunch]

/-- **A restart is counted before it is launched.** -/
theorem Step.owes (hs : Step cfg s a ev s') :
    ev.countP Event.isRelaunch + s'.owes ≤ ev.count .restartCounted + s.owes := by
  -- no event, and no restart more than before
  have hquiet : ev.countP Event.isRelaunch = 0 → s'.owes ≤ s.owes →
      ev.countP Event.isRelaunch + s'.owes ≤ ev.count .restartCounted + s.owes := by
    omega
  have hsame : ∀ {c c' : Crit}, s.holder = some c → s'.holder = some c' →
      c'.phase.owes = c.phase.owes → s'.owes ≤ s.owes := by
    intro c c' hc hc' heq
    rw [Sup.owes_of_holder hc, Sup.owes_of_holder hc', heq]
  have hfree : s'.holder = none → s'.owes ≤ s.owes := by
    intro hnone
    rw [Sup.owes_of_free hnone]
    exact Nat.zero_le _
  cases hs with
  | dropHolder c hc hh ha => exact hquiet rfl (hfree rfl)
  | grant w ws hh hq =>
    refine hquiet rfl ?_
    rw [Sup.owes_of_holder (Sup.goto_holder _ _)]
    cases w <;> exact Nat.zero_le _
  | move c c' hc hm => exact hquiet rfl (hsame hc rfl (by rw [hm.phase]))
  | running m hc => exact hquiet rfl (hfree rfl)
  | setStopping caller pid hc => exact hquiet rfl (hsame hc rfl (by cases caller <;> rfl))
  | term caller pid hc | termFails caller pid hc =>
    exact hquiet rfl (hsame hc rfl (by cases caller <;> rfl))
  | kill caller pid hc | killFails caller pid hc =>
    exact hquiet rfl (hsame hc rfl (by cases caller <;> rfl))
  | finish caller hc =>
    cases caller with
    | startModel m => exact hquiet rfl (hsame hc rfl rfl)
    | maybeRestart m => exact hquiet rfl (hsame hc rfl rfl)
    | stop => exact hquiet rfl (hfree rfl)
    | shutdown => exact hquiet rfl (hfree rfl)
  | reset m hc => exact hquiet rfl (hsame hc rfl rfl)
  | spawnReturn caller m ok pc hc hpc =>
    exact hquiet (spawnReturned_not_relaunch _ _ _ _) (hfree (by simp))
  | begin caller m hc => exact hquiet rfl (hsame hc rfl (by cases caller <;> rfl))
  | launched caller m pid hc hp =>
    rw [Sup.owes_of_holder hc, Sup.owes_of_holder (Sup.goto_holder _ _)]
    cases caller <;> simp [Crit.phase, RestartPhase.owes, Event.isRelaunch]
  | execFailed caller m e hc =>
    refine hquiet rfl ?_
    rw [Sup.owes_of_holder (Sup.goto_holder _ _)]
    cases caller <;> exact Nat.zero_le _
  | failed caller m e hc => exact hquiet (spawnReturned_not_relaunch _ _ _ _) (hfree (by simp))
  | record caller m child pid hc =>
    exact hquiet (spawnReturned_not_relaunch _ _ _ _) (hfree (by simp))
  | recovered m hc hcr => exact hquiet rfl (hfree rfl)
  | count m hc =>
    rw [Sup.owes_of_holder hc]
    rcases countStep_cases s m cfg with ⟨heq, -⟩ | ⟨heq, ⟨-, hev⟩ | ⟨-, hev⟩⟩
    · rw [heq]
      exact Nat.zero_le _
    · rw [heq, hev, Sup.owes_of_holder (Sup.goto_holder _ _)]
      simp [Crit.phase, RestartPhase.owes, Event.isRelaunch]
    · rw [heq, hev, Sup.owes_of_holder (Sup.goto_holder _ _)]
      simp [Crit.phase, RestartPhase.owes, Event.isRelaunch]
  | _ => exact hquiet rfl (Nat.le_refl _)

end Step

/-! ## Runs -/

section Runs

variable {cfg : Config} {s s' : Sup} {tr ev : List Event}

/-- **A pending restart is due**, in every run. -/
theorem rested_of_run (h : (supervisor cfg).Run Anything tr s) :
    s.undecided → s.rested = cooldown := by
  refine h.invariant (I := fun _ s => s.undecided → s.rested = cooldown) ?_ ?_
  · rintro s ⟨autostart, rfl⟩ -
    cases autostart <;> rfl
  · intro tr s a s' ev hrun _ hs ih hpending
    have hstep := step_cases hs
    cases hstep.counts with
    | none hlast hclock hev =>
      have hle := (Sup.rested_of_clock hlast hclock).1
      have hbound := s'.rested_le
      rcases hstep.undecided hpending with hbefore | hwant
      · have hdue := ih hbefore
        omega
      · have hdue := Sup.rested_of_wantRestart hwant
        omega
    | counted m hc hclock hlast hev hc' hq =>
      -- The one restart that was pending is counted now.
      have hnone := ((restartOk_of_run hrun).1.owner hc rfl).1
      rcases hpending with hqueue | hdec
      · rw [hq, hnone] at hqueue
        exact absurd hqueue (Nat.lt_irrefl 0)
      · simp [Sup.phase_of_holder hc', Crit.phase] at hdec

/-- **A step is paid for by the clock.** -/
theorem rested_paid (h : (supervisor cfg).Run Anything tr s) {a : Act}
    (hs : step cfg s a = some (s', ev)) :
    cooldown * ev.count .restartCounted + (s'.rested + s.clock) ≤ s.rested + s'.clock := by
  cases (step_cases hs).counts with
  | none hlast hclock hev =>
    have hle := (Sup.rested_of_clock hlast hclock).2
    rw [List.count_eq_zero_of_not_mem hev]
    omega
  | counted m hc hclock hlast hev hc' hq =>
    have hdue := rested_of_run h (.inr (by simp [Sup.phase_of_holder hc, Crit.phase]))
    have hused : s'.rested = 0 := by
      simp [Sup.rested, hlast, hclock]
    rw [hev, hdue, hused, hclock]
    omega

/-- **Restarts against the clock**, from any state of a run on. -/
theorem restarts_paid (h : (supervisor cfg).Run Anything tr s) {as : List Act}
    (hx : (supervisor cfg).exec s as = some (s', ev)) :
    cooldown * ev.count .restartCounted + (s'.rested + s.clock) ≤ s.rested + s'.clock ∧
      ev.countP Event.isRelaunch + s'.owes ≤ ev.count .restartCounted + s.owes := by
  refine h.exec_composes (T := fun s _ ev s' =>
    cooldown * ev.count .restartCounted + (s'.rested + s.clock) ≤ s.rested + s'.clock ∧
      ev.countP Event.isRelaunch + s'.owes ≤ ev.count .restartCounted + s.owes) ?_ ?_ hx
  · intro s
    simp
  · rintro tr s a s₁ ev as s' ev' hrun hs ⟨hclock, howes⟩
    have hclock₁ := rested_paid hrun hs
    have howes₁ := (step_cases hs).owes
    rw [List.count_append, List.countP_append, Nat.mul_add]
    omega

end Runs

/-! ## Results -/

/-- **Restarts are at least five seconds apart**, however often the crash counter is reset: in the
time between any two states of a run, `maybe_restart` launches no more workers than one for every
full cooldown, and two. -/
theorem restart_rate {cfg : Config} {tr ev : List Event} {s s' : Sup} {as : List Act}
    (h : (supervisor cfg).Run Anything tr s) (hx : (supervisor cfg).exec s as = some (s', ev)) :
    ev.countP Event.isRelaunch ≤ (s'.clock - s.clock) / cooldown + 2 := by
  obtain ⟨hclock, howes⟩ := restarts_paid h hx
  have hrested := s.rested_le
  have hone : s.owes ≤ 1 := Bool.toNat_le _
  unfold cooldown at *
  omega

/-- A worker crashes and is restarted, crashes again, and is restarted six seconds later. -/
def twoRestarts : List Act :=
  [.poll, .poll, .poll, .poll, .grant, .run, .run, .run, .run, .run, .run, .exec (.spawned 8), .run,
    .exit 1, .reap 1, .waitSection 1, .poll, .tick 6000] ++
  [.poll, .poll, .poll, .poll, .grant, .run, .run, .run, .run, .run, .run, .exec (.spawned 9), .run]

theorem restart_rate_two :
    ∃ tr s s' ev, (supervisor sampleConfig).Run Anything tr s ∧
      (supervisor sampleConfig).exec s twoRestarts = some (s', ev) ∧
      ev.countP Event.isRelaunch = 2 ∧
      ev.countP Event.isRelaunch ≤ (s'.clock - s.clock) / cooldown + 2 := by
  have hreach := Run.reaches (supervisor sampleConfig) Anything
    (startFully modelA 7 ++ [.exit 0, .reap 0, .waitSection 0])
    (fun _ s => ((supervisor sampleConfig).exec s twoRestarts).any fun r =>
      decide (r.2.countP Event.isRelaunch = 2))
    ⟨none, rfl⟩ (admits_anything _ _ _) (by decide)
  obtain ⟨tr, s, hrun, hp⟩ := hreach
  obtain ⟨⟨s', ev⟩, hx, htwo⟩ := (Option.any_eq_true _ _).mp hp
  exact ⟨tr, s, s', ev, hrun, hx, of_decide_eq_true htwo, restart_rate hrun hx⟩

end LlmCtl
