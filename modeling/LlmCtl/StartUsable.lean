/-
# Is the worker of a successful start usable?

`start_model` returns `Ok` when the model is already running, that is when `model_id` and a pid say
so, or when `spawn` has recorded a new child.  Neither path looks at the status.

* `startReturned_ok_cases`: the two paths, from any state.
* `pidStatus_of_run`, `modelId_of_run`: what `model_id`, the pid and the status can be together.
* `start_usable`: an `Ok` means a usable worker, in every run in which the shortcut finds no worker
  that is marked `Crashed`, and no poll marks the new worker `Crashed` while it is being launched.
-/
import LlmCtl.Lifecycle

namespace LlmCtl

open EventSystem WorkerState

/-! ## The property and the condition -/

/-- The child that this call of `start_model` has launched. -/
def Crit.launchedChild : Crit → Option ℕ
  | .spawn .startModel _ (.record child _) => some child
  | _ => none

/-- **The worker of a start that returned `Ok`.** -/
structure UsableStart (m : Model) (s s' : Sup) : Prop where
  model : s'.st.modelId = some m.id
  /-- It is loading or ready under a recorded pid, or the child of this call has exited. -/
  worker : (s'.st.pid.isSome = true ∧ (s'.st.status = .starting ∨ s'.st.status = .ready)) ∨
    ∃ child c, s.holder.bind Crit.launchedChild = some child ∧ s'.procs[child]? = some c ∧
      c.live = false
  /-- No `Ok` for a worker that is marked `Crashed`, unless the call has launched a new one. -/
  crashed : s.st.status.isCrashed = true → (s.holder.bind Crit.launchedChild).isSome = true

/-- The model that the first check of `start_model` is about. -/
def Crit.checks : Crit → Option Model
  | .startCheck m => some m
  | _ => none

/-- Is the worker of a `start_model` announced and not yet recorded? -/
def Crit.isLaunching : Crit → Bool
  | .spawn .startModel _ .exec => true
  | .spawn .startModel _ (.record _ _) => true
  | _ => false

/-- The shortcut finds no worker that is marked `Crashed`, and `poll` marks none while a
`start_model` launches it. -/
def NoCrashedStart (_ : List Event) (s : Sup) : Act → Prop
  | .run => ∀ m ∈ s.holder.bind Crit.checks, s.st.isRunning m = true →
    s.st.status.isCrashed = false
  | .poll => s.holder.any Crit.isLaunching = true →
    (s.poller.verdict s.clock).any WorkerStatus.isCrashed = false
  | _ => True

instance (tr : List Event) (s : Sup) (a : Act) : Decidable (NoCrashedStart tr s a) := by
  unfold NoCrashedStart
  split <;> infer_instance

/-! ## The paths to `Ok` -/

section Paths

variable {cfg : Config} {s s' : Sup} {a : Act} {ev : List Event}

/-- The poller returns from no start. -/
theorem pollerStep_startReturned (h : pollerStep cfg s = some (s', ev)) (m : Model) (ok : Bool) :
    .startReturned m ok ∉ ev := by
  cases hp : s.poller with
  | off | probing | restarting | slots | panicked => simp [pollerStep, hp] at h
  | want =>
    simp only [pollerStep, hp] at h
    split at h
    · split at h
      · cases h
        simp
      · cases h
        simp
    · cases h
      simp
  | _ =>
    simp only [pollerStep, hp] at h
    cases h
    simp

/-- Neither does `stop_inner`. -/
theorem stopInnerStep_startReturned (s : Sup) (caller : StopCaller) (pc : StopPc) (m : Model)
    (ok : Bool) : .startReturned m ok ∉ (stopInnerStep s caller pc).2 := by
  cases pc with
  | finish => cases caller <;> simp [stopInnerStep, afterStop]
  | grace pid left =>
    cases left with
    | zero => simp [stopInnerStep]
    | succ n =>
      simp only [stopInnerStep]
      split <;> simp
  | readPid | killIfAlive =>
    simp only [stopInnerStep]
    split <;> simp
  | setStopping | term | sleep => simp [stopInnerStep]

/-- The owner of the lock returns `Ok` from a start. -/
theorem holderStep_startReturned {c : Crit} {m : Model}
    (h : holderStep cfg s c = some (s', ev)) (hmem : .startReturned m true ∈ ev) :
    (c = .startCheck m ∧ s.st.isRunning m = true ∧ s' = s.release) ∨
      (c = .spawn .startModel m .check ∧ s.st.isRunning m = true) ∨
      ∃ child pid, c = .spawn .startModel m (.record child pid) ∧
        s' = { s with
          st := s.st.recordPid pid
          procs := s.procs.modify child Proc.startWait }.release := by
  cases c with
  | startCheck m' =>
    simp only [holderStep] at h
    split at h
    · next hrunning =>
      cases h
      obtain rfl : m = m' := by simpa using hmem
      exact .inl ⟨rfl, hrunning, rfl⟩
    · cases h
      simp at hmem
  | startPid m' =>
    simp only [holderStep] at h
    split at h <;> · cases h; simp at hmem
  | startReset m' =>
    cases h
    simp at hmem
  | recheck m' =>
    simp only [holderStep] at h
    split at h <;> · cases h; simp at hmem
  | count m' =>
    obtain rfl : (countStep cfg s m').2 = ev := congrArg Prod.snd (Option.some.inj h)
    exact absurd (countStep_events m' _ hmem) (by simp)
  | stopInner caller pc =>
    obtain rfl : (stopInnerStep s caller pc).2 = ev := congrArg Prod.snd (Option.some.inj h)
    exact absurd hmem (stopInnerStep_startReturned s caller pc m true)
  | spawn caller m' pc =>
    cases pc with
    | check =>
      simp only [holderStep, spawnStep] at h
      split at h
      · next hrunning =>
        obtain rfl : (spawnReturned s m' true caller).2 = ev :=
          congrArg Prod.snd (Option.some.inj h)
        cases caller with
        | startModel =>
          obtain rfl : m = m' := by simpa [spawnReturned] using hmem
          exact .inr (.inl ⟨rfl, hrunning⟩)
        | startup | maybeRestart => simp [spawnReturned] at hmem
      · cases h
        simp at hmem
    | begin =>
      cases h
      simp at hmem
    | exec => simp [holderStep, spawnStep] at h
    | failed e =>
      obtain rfl := congrArg Prod.snd (Option.some.inj h)
      exact absurd (spawnReturned_events _ _ _ _ _ hmem) (by simp)
    | record child pid =>
      obtain ⟨rfl, rfl⟩ := Prod.mk.inj (Option.some.inj h)
      cases caller with
      | startModel =>
        obtain rfl : m = m' := by simpa [spawnReturned] using hmem
        exact .inr (.inr ⟨child, pid, rfl, rfl⟩)
      | startup | maybeRestart => simp at hmem

/-- Creating the process is not the end of a successful start. -/
theorem execStep_startReturned {caller : Spawner} {m' : Model} {o : ExecOutcome}
    (h : execStep cfg s caller m' o = some (s', ev)) (m : Model) :
    .startReturned m true ∉ ev := by
  cases o with
  | logFailed e =>
    obtain rfl := congrArg Prod.snd (Option.some.inj h)
    exact fun hmem => absurd (spawnReturned_events _ _ _ _ _ hmem) (by simp)
  | spawnFailed e =>
    cases h
    simp
  | spawned pid =>
    simp only [execStep] at h
    split at h
    · cases h
      simp
    · exact absurd h (by simp)

/-- Only the owner of the lock, its grant and the poller are seen. -/
theorem act_of_event (h : step cfg s a = some (s', ev)) (hev : ev ≠ []) :
    a = .run ∨ (∃ o, a = .exec o) ∨ a = .poll ∨ a = .grant := by
  cases a with
  | run => exact .inl rfl
  | exec o => exact .inr (.inl ⟨o, rfl⟩)
  | poll => exact .inr (.inr (.inl rfl))
  | grant => exact .inr (.inr (.inr rfl))
  | tick | markRequest | stashTurn =>
    cases h
    exact absurd rfl hev
  | killFails =>
    simp only [step] at h
    split at h
    · exact absurd (killFailsStep_events h) hev
    · cases h
  | _ =>
    simp only [step] at h
    repeat' split at h
    all_goals cases h
    all_goals exact absurd rfl hev

/-- **The paths of `start_model` to `Ok`**: the shortcut of its own check, that of `spawn`, and a
recorded child. -/
theorem startReturned_ok_cases {m : Model} (h : step cfg s a = some (s', ev))
    (hmem : .startReturned m true ∈ ev) :
    a = .run ∧ ((s.holder = some (.startCheck m) ∧ s.st.isRunning m = true ∧ s' = s.release) ∨
      (s.holder = some (.spawn .startModel m .check) ∧ s.st.isRunning m = true) ∨
      ∃ child pid, s.holder = some (.spawn .startModel m (.record child pid)) ∧
        s' = { s with
          st := s.st.recordPid pid
          procs := s.procs.modify child Proc.startWait }.release) := by
  rcases act_of_event h (List.ne_nil_of_mem hmem) with rfl | ⟨o, rfl⟩ | rfl | rfl
  · simp only [step] at h
    split at h
    · next c hc =>
      rcases holderStep_startReturned h hmem with
        ⟨rfl, hrunning, heq⟩ | ⟨rfl, hrunning⟩ | ⟨child, pid, rfl, heq⟩
      · exact ⟨rfl, .inl ⟨hc, hrunning, heq⟩⟩
      · exact ⟨rfl, .inr (.inl ⟨hc, hrunning⟩)⟩
      · exact ⟨rfl, .inr (.inr ⟨child, pid, hc, heq⟩)⟩
    · exact absurd h (by simp)
  · simp only [step] at h
    split at h
    · next caller m' hc => exact absurd hmem (execStep_startReturned h m)
    · exact absurd h (by simp)
  · exact absurd hmem (pollerStep_startReturned h m true)
  · simp only [step] at h
    split at h
    · cases h
      simp at hmem
    · exact absurd h (by simp)

end Paths

/-! ## What the record can say -/

/-- A status that belongs to a worker. -/
def WorkerStatus.isActive : WorkerStatus → Bool
  | .starting | .ready | .crashed _ => true
  | .stopped | .stopping => false

/-- The model whose worker `spawn` has announced and not yet recorded. -/
def Crit.launching : Crit → Option Model
  | .spawn _ m .exec => some m
  | .spawn _ m (.record _ _) => some m
  | _ => none

/-- A recorded or announced worker has a status, and the announced one its model. -/
structure LaunchOk (s : Sup) : Prop where
  pid : s.st.pid.isSome = true → s.st.status.isActive = true
  status : ∀ m, s.holder.bind Crit.launching = some m → s.st.status.isActive = true
  model : ∀ m, s.holder.bind Crit.launching = some m → s.st.modelId = some m.id

/-- A step after which nothing else is announced, and that leaves the record alone. -/
theorem LaunchOk.same {s s' : Sup} (h : LaunchOk s) (hpid : s'.st.pid = s.st.pid)
    (hstatus : s'.st.status = s.st.status) (hid : s'.st.modelId = s.st.modelId)
    (hlaunching : ∀ m, s'.holder.bind Crit.launching = some m →
      s.holder.bind Crit.launching = some m) : LaunchOk s' where
  pid := by
    rw [hpid, hstatus]
    exact h.pid
  status := by
    intro m hm
    rw [hstatus]
    exact h.status m (hlaunching m hm)
  model := by
    intro m hm
    rw [hid]
    exact h.model m (hlaunching m hm)

/-- A state without a pid in which nothing is announced. -/
theorem launchOk_of_none {s : Sup} (hpid : s.st.pid = none)
    (hlaunching : s.holder.bind Crit.launching = none) : LaunchOk s where
  pid := by simp [hpid]
  status := by simp [hlaunching]
  model := by simp [hlaunching]

/-- What `poll` writes belongs to a worker. -/
theorem isActive_of_pollVerdict {ok : Bool} {status v : WorkerStatus} {startedAt : Option ℕ}
    {now : ℕ} (h : pollVerdict ok status startedAt now = some v) : v.isActive = true := by
  cases ok with
  | true =>
    obtain rfl := Option.some.inj h
    rfl
  | false =>
    have hcrashed := isCrashed_of_pollVerdict h
    cases v <;> simp_all [WorkerStatus.isCrashed, WorkerStatus.isActive]

/-- While a worker is announced no pid is recorded. -/
theorem Sup.PidOk.of_launching {s : Sup} (h : s.PidOk) {m : Model}
    (hm : s.holder.bind Crit.launching = some m) : s.st.pid = none := by
  obtain ⟨c, hc, hlaunching⟩ := Option.bind_eq_some_iff.mp hm
  cases c with
  | spawn caller m' pc => exact h _ hc
  | _ => simp [Crit.launching] at hlaunching

section Step

variable {cfg : Config} {s s' : Sup} {a : Act} {ev : List Event}

theorem Step.launchOk (hs : Step cfg s a ev s') (hp : s.PidOk) (h : LaunchOk s) :
    LaunchOk s' := by
  cases hs with
  | waitSection i c hc hw =>
    rcases s.st.childExited_cases c.pid with ⟨-, heq⟩ | ⟨hsome, hnone, -⟩
    · exact h.same (by rw [heq]) (by rw [heq]) (by rw [heq]) fun _ => id
    · refine launchOk_of_none hnone (Option.eq_none_iff_forall_ne_some.mpr fun m hm => ?_)
      exact absurd ((hp.of_launching hm).symm.trans hsome) (by simp)
  | dropHolder | running | recovered => exact h.same rfl rfl rfl (by simp)
  | setStopping | term | kill | termFails | killFails | reset | execFailed =>
    exact h.same rfl rfl rfl (by simp [Crit.launching])
  | grant w ws hh hq =>
    exact h.same rfl rfl rfl (by cases w <;> simp [Waiter.entry, Crit.launching])
  | move c c' hc hm => exact h.same rfl rfl rfl (by cases hm <;> simp [Crit.launching])
  | finish caller hc =>
    exact launchOk_of_none (by simp) (by cases caller <;> simp [afterStop, Crit.launching])
  | spawnReturn caller m ok pc hc hpc =>
    exact h.same (by simp) (by simp) (by simp) (by simp)
  | begin caller m hc =>
    refine ⟨fun _ => rfl, fun _ _ => rfl, fun m' hm' => ?_⟩
    obtain rfl : m = m' := by simpa [Crit.launching] using hm'
    rfl
  | launched caller m pid hc hfree =>
    exact h.same rfl rfl rfl (by simp [hc, Crit.launching])
  | failed caller m e hc => exact launchOk_of_none (by simp) (by simp)
  | record caller m child pid hc =>
    refine ⟨fun _ => ?_, by simp, by simp⟩
    simpa using h.status m (by simp [hc, Crit.launching])
  | count m hc =>
    refine h.same (by simp) (by simp) (by simp) ?_
    rcases countStep_holder s m cfg with heq | heq
    · simp [heq]
    · simp [heq, Crit.launching]
  | write ok status startedAt hpoll =>
    have hactive : s.st.status.isActive = true →
        (s.st.pollResult ok status startedAt s.clock).status.isActive = true := by
      intro hbefore
      rw [pollResult_status]
      cases hv : pollVerdict ok status startedAt s.clock with
      | none => exact hbefore
      | some v => exact isActive_of_pollVerdict hv
    refine ⟨fun hsome => hactive (h.pid (by simpa using hsome)),
      fun m hm => hactive (h.status m hm), fun m hm => ?_⟩
    simpa using h.model m hm
  | _ => exact h.same rfl rfl rfl fun _ => id

/-- Where the status of a worker that a `start_model` launches comes from: the announcement, the
state before, or `poll`. -/
theorem Step.launching_status (hs : Step cfg s a ev s') (hp : s.PidOk)
    (h : s'.holder.any Crit.isLaunching = true) :
    s'.st.status = .starting ∨ (s.holder.any Crit.isLaunching = true ∧
      (s'.st.status = s.st.status ∨
        a = .poll ∧ s'.st.status = (s.poller.verdict s.clock).getD s.st.status)) := by
  cases hs with
  | waitSection i c hc hw =>
    refine .inr ⟨h, .inl ?_⟩
    rcases s.st.childExited_cases c.pid with ⟨-, heq⟩ | ⟨hsome, -, -⟩
    · exact congrArg WorkerState.status heq
    · obtain ⟨c', hc', hl⟩ := (Option.any_eq_true _ _).mp h
      cases c' with
      | spawn caller m pc => exact absurd ((hp _ hc').symm.trans hsome) (by simp)
      | _ => simp [Crit.isLaunching] at hl
  | grant w ws hh hq => cases w <;> simp [Waiter.entry, Crit.isLaunching] at h
  | move c c' hc hm => cases hm <;> simp [Crit.isLaunching] at h
  | finish caller hc => cases caller <;> simp [afterStop, Crit.isLaunching] at h
  | begin caller m hc => exact .inl rfl
  | launched caller m pid hc hfree =>
    refine .inr ⟨?_, .inl rfl⟩
    cases caller <;> simp_all [Crit.isLaunching]
  | count m hc =>
    rcases countStep_holder s m cfg with heq | heq
    · simp [heq] at h
    · simp [heq, Crit.isLaunching] at h
  | dropHolder | running | setStopping | term | kill | termFails | killFails | reset | spawnReturn
  | execFailed | failed | record | recovered => simp [Crit.isLaunching] at h
  | write ok status startedAt hpoll =>
    refine .inr ⟨h, .inr ⟨rfl, ?_⟩⟩
    simp only [Poller.verdict, hpoll]
    exact pollResult_status _ _ _ _ _
  | _ => exact .inr ⟨h, .inl rfl⟩

end Step

/-! ## Runs -/

/-- A recorded or announced worker has a status, and the announced one its model, in any run. -/
theorem launchOk_of_run {cfg : Config} {ok : List Event → Sup → Act → Prop} {tr : List Event}
    {s : Sup} (h : (supervisor cfg).Run ok tr s) : LaunchOk s := by
  refine h.invariant (I := fun _ s => LaunchOk s) ?_ ?_
  · rintro s ⟨autostart, rfl⟩
    exact launchOk_of_none rfl (by cases autostart <;> simp [Sup.init, Crit.launching])
  · intro tr s a s' ev hrun _ hs ih
    exact (step_cases hs).launchOk (pidOk_of_run hrun) ih

/-- While a `start_model` launches a worker, the worker is not marked `Crashed`. -/
theorem not_crashed_of_launching {cfg : Config} {tr : List Event} {s : Sup}
    (h : (supervisor cfg).Run NoCrashedStart tr s) :
    s.holder.any Crit.isLaunching = true → s.st.status.isCrashed = false := by
  refine h.invariant (I := fun _ s => s.holder.any Crit.isLaunching = true →
    s.st.status.isCrashed = false) ?_ ?_
  · rintro s ⟨autostart, rfl⟩ hlaunching
    cases autostart <;> simp [Sup.init, Crit.isLaunching] at hlaunching
  · intro tr s a s' ev hrun hok hs ih hlaunching
    rcases (step_cases hs).launching_status (pidOk_of_run hrun) hlaunching with
      heq | ⟨hbefore, heq | ⟨rfl, heq⟩⟩
    · simp [heq]
    · rw [heq]
      exact ih hbefore
    · rw [heq]
      have hverdict := hok hbefore
      cases hv : s.poller.verdict s.clock with
      | none => exact ih hbefore
      | some v => simpa [hv] using hverdict

/-- A worker's status that is not `Crashed`. -/
theorem WorkerStatus.usable_of_isActive {status : WorkerStatus} (h : status.isActive = true)
    (hcrashed : status.isCrashed = false) : status = .starting ∨ status = .ready := by
  cases status with
  | starting => exact .inl rfl
  | ready => exact .inr rfl
  | crashed e => exact absurd hcrashed (by simp)
  | stopped | stopping => exact absurd h (by simp [isActive])

/-- **A successful start means a usable worker**, in every run in which the shortcut finds no
worker that is marked `Crashed`, and no poll marks the new worker `Crashed` before it is
recorded. -/
theorem start_usable {cfg : Config} {tr ev : List Event} {s s' : Sup} {a : Act} {m : Model}
    (h : (supervisor cfg).Run NoCrashedStart tr s) (hok : NoCrashedStart tr s a)
    (hs : step cfg s a = some (s', ev)) (hmem : .startReturned m true ∈ ev) :
    UsableStart m s s' := by
  have hlaunch := launchOk_of_run h
  obtain ⟨rfl, ⟨hc, hrunning, rfl⟩ | ⟨hc, hrunning⟩ | ⟨child, pid, hc, rfl⟩⟩ :=
    startReturned_ok_cases hs hmem
  · have hcrashed := hok m (by simp [hc, Crit.checks]) hrunning
    obtain ⟨hid, hpid⟩ : s.st.modelId = some m.id ∧ s.st.pid.isSome = true := by
      simpa [isRunning] using hrunning
    refine ⟨hid, .inl ⟨hpid, ?_⟩, fun hcr => absurd (hcrashed.symm.trans hcr) (by simp)⟩
    exact WorkerStatus.usable_of_isActive (hlaunch.pid hpid) hcrashed
  · -- The pid has been cleared on the way to `spawn`.
    have hnone : s.st.pid = none := pidOk_of_run h _ hc
    exact absurd hrunning (by simp [isRunning, hnone])
  · have hmodel : s.holder.bind Crit.launching = some m := by simp [hc, Crit.launching]
    have hcrashed := not_crashed_of_launching h (by simp [hc, Crit.isLaunching])
    refine ⟨hlaunch.model m hmodel, .inl ⟨rfl, ?_⟩, fun _ => by simp [hc, Crit.launchedChild]⟩
    exact WorkerStatus.usable_of_isActive (hlaunch.status m hmodel) hcrashed

/-- A switch to another model is usable. -/
theorem start_usable_switch :
    ∃ tr s s', (supervisor sampleConfig).Run NoCrashedStart tr s ∧
      step sampleConfig s .run = some (s', [.startReturned modelB true]) ∧
      UsableStart modelB s s' := by
  have hreach := Run.reaches (supervisor sampleConfig) NoCrashedStart
    (List.flatten [startFully modelA 7, pollOnce (some 0),
      [.callStart modelB, .grant, .run, .run, .run, .run, .run, .exit 0, .run, .run, .run],
      [.run, .run, .run, .exec (.spawned 8)]])
    (fun _ s => decide (s.holder = some (.spawn .startModel modelB (.record 1 8)))) ⟨none, rfl⟩
    (by decide) (by decide)
  obtain ⟨tr, s, hrun, hp⟩ := hreach
  have hc : s.holder = some (.spawn .startModel modelB (.record 1 8)) := of_decide_eq_true hp
  have hs : step sampleConfig s .run =
      some ({ s with
          st := s.st.recordPid 8
          procs := s.procs.modify 1 Proc.startWait }.release, [.startReturned modelB true]) := by
    simp [step, hc, holderStep, spawnStep, spawnReturned]
  have hok : NoCrashedStart tr s .run := by simp [NoCrashedStart, hc, Crit.checks]
  exact ⟨tr, s, _, hrun, hs, start_usable hrun hok hs List.mem_cons_self⟩

/-- A daemon that restarts nothing by itself. -/
def noRestarts : Config :=
  { sampleConfig with worker := { sampleConfig.worker with maxRestarts := 0 } }

/-- A worker fails its health check and hangs; a request to start its model returns `Ok` and
changes nothing. -/
theorem hung_worker_is_not_restarted :
    ¬ ∀ (tr : List Event) (s : Sup) (a : Act) (s' : Sup) (ev : List Event) (m : Model),
      (supervisor noRestarts).Run Anything tr s → step noRestarts s a = some (s', ev) →
      .startReturned m true ∈ ev → UsableStart m s s' := by
  intro hall
  have hreach := Run.reaches (supervisor noRestarts) Anything
    (List.flatten [startFully modelA 7, pollOnce (some 0), pollRest, pollOnce none, pollRest,
      [.callStart modelA, .grant]])
    (fun _ s => decide (s.holder = some (.startCheck modelA) ∧ s.st.isRunning modelA = true ∧
      s.st.status.isCrashed = true ∧ s.procs.any Proc.live = true)) ⟨none, rfl⟩
    (admits_anything _ _ _) (by decide)
  obtain ⟨tr, s, hrun, hp⟩ := hreach
  obtain ⟨hc, hrunning, hcrashed, -⟩ := of_decide_eq_true hp
  have hs : step noRestarts s .run = some (s.release, [.startReturned modelA true]) := by
    simp [step, hc, holderStep, hrunning]
  have husable := hall tr s .run _ _ modelA hrun hs List.mem_cons_self
  exact absurd (husable.crashed hcrashed) (by simp [hc, Crit.launchedChild])

end LlmCtl
