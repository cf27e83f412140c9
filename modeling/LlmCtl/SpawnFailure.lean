/-
# When `spawn` fails (`supervisor.rs`)

`spawn` announces a start before it opens the log and creates the process.  The calls to the
operating system are answered here one by one, in the order in which `spawn` makes them, and the
answers drive the steps of the supervisor.

`failed_spawn_visible_iff`: an error is visible afterwards, as `Crashed` without a pid, exactly if
it is the one of `cmd.spawn()`.  The errors of the log are passed on with `?`, and leave `Starting`
behind, which neither `poll` nor `maybe_restart` looks at (`forgotten_until_granted`).
-/
import LlmCtl.Lifecycle

namespace LlmCtl

open EventSystem

/-! ## The calls of `spawn` -/

/-- The answers to the calls of `spawn` that can fail: `create_dir_all` and `open` in
`worker_log_file`, then `try_clone` and `cmd.spawn()`. -/
structure SpawnCalls where
  createDir : Except String Unit
  openLog : Except String Unit
  cloneLog : Except String Unit
  spawn : Except String ℕ

namespace SpawnCalls

/-- `worker_log_file`. -/
def workerLogFile (calls : SpawnCalls) : Except String Unit := do
  calls.createDir
  calls.openLog

/-- The log is there for both streams of the worker. -/
def workerLog (calls : SpawnCalls) : Except String Unit := do
  calls.workerLogFile
  calls.cloneLog

/-- What the calls come to. -/
def outcome (calls : SpawnCalls) : ExecOutcome :=
  match calls.workerLog with
  | .error e => .logFailed e
  | .ok () =>
    match calls.spawn with
    | .error e => .spawnFailed e
    | .ok pid => .spawned pid

/-- The log can be opened and duplicated. -/
def LogReady (calls : SpawnCalls) : Prop :=
  calls.createDir = .ok () ∧ calls.openLog = .ok () ∧ calls.cloneLog = .ok ()

/-- Some call fails. -/
def Fails (calls : SpawnCalls) : Prop := calls.LogReady → ∃ e, calls.spawn = .error e

/-- The steps of a `spawn` from its first check on; its error section is a step of its own. -/
def acts (calls : SpawnCalls) : List Act :=
  [.run, .run, .exec calls.outcome] ++
    match calls.outcome with
    | .logFailed _ => []
    | .spawnFailed _ | .spawned _ => [.run]

theorem workerLog_eq_ok_iff (calls : SpawnCalls) : calls.workerLog = .ok () ↔ calls.LogReady := by
  unfold workerLog workerLogFile LogReady
  cases calls.createDir with
  | error e => simp [bind, Except.bind]
  | ok u =>
    cases calls.openLog with
    | error e => simp [bind, Except.bind]
    | ok u => simp [bind, Except.bind]

/-- **The two ways to fail**: at the log, or, with the log there, at the process. -/
theorem outcome_of_fails {calls : SpawnCalls} (h : calls.Fails) :
    (¬ calls.LogReady ∧ ∃ e, calls.outcome = .logFailed e) ∨
      (calls.LogReady ∧ ∃ e, calls.outcome = .spawnFailed e) := by
  cases hlog : calls.workerLog with
  | error e =>
    refine .inl ⟨fun hready => ?_, e, by simp [outcome, hlog]⟩
    rw [(workerLog_eq_ok_iff calls).mpr hready] at hlog
    exact absurd hlog (by simp)
  | ok u =>
    have hready := (workerLog_eq_ok_iff calls).mp hlog
    obtain ⟨e, he⟩ := h hready
    exact .inr ⟨hready, e, by simp [outcome, hlog, he]⟩

end SpawnCalls

/-! ## What a failed `spawn` leaves -/

/-- The failure is there to be seen. -/
def WorkerState.Failed (st : WorkerState) : Prop := st.pid = none ∧ st.status.isCrashed = true

instance (st : WorkerState) : Decidable st.Failed := by
  unfold WorkerState.Failed
  infer_instance

section Spawn

variable {s : Sup} {caller : Spawner} {m : Model}

/-- Without a pid `spawn` goes on to announce the start. -/
theorem exec_announce (cfg : Config) (hc : s.holder = some (.spawn caller m .check))
    (hpid : s.st.pid = none) :
    (supervisor cfg).exec s [.run, .run] =
      some ({ s with st := s.st.beginSpawn m s.clock }.goto (.spawn caller m .exec),
        [.spawning caller m]) := by
  have hrunning : s.st.isRunning m = false := by simp [WorkerState.isRunning, hpid]
  simp [exec, supervisor, step, hc, holderStep, spawnStep, hrunning]
  rfl

/-- An error of the log: the announcement stays. -/
theorem exec_logFailed (cfg : Config) {e : String}
    (hc : s.holder = some (.spawn caller m .exec)) :
    (supervisor cfg).exec s [.exec (.logFailed e)] = some (spawnReturned s m false caller) := by
  simp [exec, supervisor, step, hc, execStep]

/-- An error of the process: the announcement is taken back. -/
theorem exec_spawnFailed (cfg : Config) {e : String}
    (hc : s.holder = some (.spawn caller m .exec)) :
    (supervisor cfg).exec s [.exec (.spawnFailed e), .run] =
      some (spawnReturned { s with st := s.st.spawnFailed e } m false caller) := by
  simp only [exec, supervisor, step, hc, execStep, Sup.goto_holder, holderStep, spawnStep]
  cases caller <;> rfl

/-- **An error of `spawn` and what it leaves**: whatever the state before, as long as no pid is
recorded in it, `spawn` returns its error to the caller, with the worker marked `Crashed` exactly
if the log was there; else the start stays announced. -/
theorem failed_spawn_visible_iff (cfg : Config) (calls : SpawnCalls)
    (hc : s.holder = some (.spawn caller m .check)) (hpid : s.st.pid = none)
    (hfails : calls.Fails) :
    ∃ st, (supervisor cfg).exec s calls.acts =
        some ((spawnReturned { s with st := st } m false caller).1,
          (spawnReturned { s with st := st } m false caller).2 ++ [.spawning caller m]) ∧
      (st.Failed ↔ calls.LogReady) ∧ (st.status = .starting ↔ ¬ calls.LogReady) := by
  have hann := exec_announce cfg hc hpid
  rcases SpawnCalls.outcome_of_fails hfails with ⟨hlog, e, he⟩ | ⟨hlog, e, he⟩
  · have hacts : calls.acts = [.run, .run] ++ [.exec (.logFailed e)] := by
      simp [SpawnCalls.acts, he]
    refine ⟨s.st.beginSpawn m s.clock, ?_, ?_, ?_⟩
    · rw [hacts, exec_append hann (exec_logFailed cfg rfl)]
      cases caller <;> rfl
    · simp [WorkerState.Failed, hlog]
    · simp [hlog]
  · have hacts : calls.acts = [.run, .run] ++ [.exec (.spawnFailed e), .run] := by
      simp [SpawnCalls.acts, he]
    refine ⟨(s.st.beginSpawn m s.clock).spawnFailed e, ?_, ?_, ?_⟩
    · rw [hacts, exec_append hann (exec_spawnFailed cfg rfl)]
      cases caller <;> rfl
    · simp [WorkerState.Failed, hlog]
    · simp [hlog]

end Spawn

/-- The binary is not there. -/
def noBinary : SpawnCalls := ⟨.ok (), .ok (), .ok (), .error "No such file or directory"⟩

/-- The state directory cannot be created. -/
def noStateDir : SpawnCalls := ⟨.error "Permission denied", .ok (), .ok (), .ok 4242⟩

/-- A `start_model` that has come to `spawn`, with no worker before it. -/
def startingA : Sup := { Sup.init none with holder := some (.spawn .startModel modelA .check) }

/-- A binary that is not there shows. -/
theorem failed_spawn_visible_no_binary :
    ∃ st, (supervisor sampleConfig).exec startingA noBinary.acts =
        some ({ startingA with st := st, holder := none },
          [.startReturned modelA false, .spawning .startModel modelA]) ∧ st.Failed := by
  obtain ⟨st, hexec, hfailed, -⟩ := failed_spawn_visible_iff sampleConfig noBinary
    (s := startingA) rfl rfl fun _ => ⟨_, rfl⟩
  exact ⟨st, hexec, hfailed.mpr ⟨rfl, rfl, rfl⟩⟩

/-- A state directory that cannot be created leaves `Starting`, without a pid. -/
theorem log_failure_stays_starting :
    ¬ ∀ (s : Sup) (caller : Spawner) (m : Model) (calls : SpawnCalls),
      s.holder = some (.spawn caller m .check) → s.st.pid = none → calls.Fails →
      ((supervisor sampleConfig).exec s calls.acts).any (fun r => decide r.1.st.Failed) = true := by
  intro hall
  have hvisible := hall startingA .startModel modelA noStateDir rfl rfl
    fun h => absurd h.1 (by simp [noStateDir])
  exact absurd hvisible (by decide)

/-! ## A start that stays announced -/

/-- Is the poller between its first look at the pid and its result, or in `maybe_restart`? -/
def Poller.isBusy : Poller → Bool
  | .probe | .probing | .snapshot _ | .write _ _ _ | .restarting => true
  | .off | .idle | .hasPid | .flag | .want | .slotsPid | .slots | .slotsWrite _ _
  | .panicked => false

/-- `Starting` without a pid, and nobody is at work on it. -/
structure Forgotten (s : Sup) : Prop where
  pid : s.st.pid = none
  status : s.st.status = .starting
  holder : s.holder = none
  poller : s.poller.isBusy = false
  queue : ∀ w ∈ s.queue, w.isRestart = false

section Forgotten

variable {cfg : Config} {s s' : Sup} {a : Act} {ev : List Event}

/-- Neither the poller nor a wait task takes notice of it. -/
theorem Step.forgotten (hs : Step cfg s a ev s') (h : Forgotten s) (ha : a ≠ .grant) :
    Forgotten s' := by
  have hfree : ∀ c, s.holder ≠ some c := by simp [h.holder]
  cases hs with
  | waitSection i c hc hw =>
    have hsame : s.st.childExited c.pid = s.st :=
      WorkerState.childExited_of_ne (by simp [h.pid])
    exact ⟨by rw [hsame]; exact h.pid, by rw [hsame]; exact h.status, h.holder, h.poller, h.queue⟩
  | call w hw hm =>
    refine ⟨h.pid, h.status, h.holder, h.poller, fun w' hw' => ?_⟩
    rcases List.mem_append.mp hw' with hold | hnew
    · exact h.queue w' hold
    · obtain rfl := List.mem_singleton.mp hnew
      exact Waiter.isRestart_of_isHandler hw
  | drained hm hh =>
    refine ⟨h.pid, h.status, h.holder, h.poller, fun w' hw' => ?_⟩
    rcases List.mem_append.mp hw' with hold | hnew
    · exact h.queue w' hold
    · obtain rfl := List.mem_singleton.mp hnew
      rfl
  | dropWaiting n w hn hw =>
    exact ⟨h.pid, h.status, h.holder, h.poller,
      fun w' hw' => h.queue w' (List.mem_of_mem_eraseIdx hw')⟩
  | grant w ws hh hq => exact absurd rfl ha
  | dropHolder c hc | move c c' hc | running m hc | setStopping caller pid hc
  | term caller pid hc | kill caller pid hc | termFails caller pid hc
  | killFails caller pid hc | finish caller hc | reset m hc
  | spawnReturn caller m ok pc hc | begin caller m hc | launched caller m pid hc
  | execFailed caller m e hc | failed caller m e hc | record caller m child pid hc
  | recovered m hc | count m hc => exact absurd hc (hfree _)
  | pollMove p p' hp hm =>
    refine ⟨h.pid, h.status, h.holder, ?_, h.queue⟩
    have hbusy := h.poller
    rw [hp] at hbusy
    cases hm with
    | pid hsome => simp [h.pid] at hsome
    | answered | snapshot => simp [Poller.isBusy] at hbusy
    | _ => rfl
  | probe hp | write ok status startedAt hp =>
    have hbusy := h.poller
    simp [hp, Poller.isBusy] at hbusy
  | want m hp hm hw => simp [WorkerState.wantRestart, h.status] at hw
  | slotsWrite slots metrics hp => exact ⟨h.pid, h.status, h.holder, rfl, h.queue⟩
  | _ => exact ⟨h.pid, h.status, h.holder, h.poller, h.queue⟩

/-- **A start that stays announced stays so** until somebody else is granted the lock: however long
it takes, `poll` does not mark it and `maybe_restart` does not try again. -/
theorem forgotten_until_granted {tr : List Event}
    (h : ({ supervisor cfg with init := Forgotten }).Run (fun _ _ a => a ≠ Act.grant) tr s) :
    Forgotten s := by
  refine h.invariant (I := fun _ s => Forgotten s) (fun s hs => hs) ?_
  intro tr s a s' ev _ ha hs ih
  exact (step_cases hs).forgotten ih ha

/-- An error of the log leaves such a start, when it comes while the poller rests. -/
theorem forgotten_of_logFailed {m : Model} {e : String}
    (hc : s.holder = some (.spawn .startModel m .check)) (hpid : s.st.pid = none)
    (hpoller : s.poller.isBusy = false) (hqueue : ∀ w ∈ s.queue, w.isRestart = false) :
    ∃ s' ev, (supervisor cfg).exec s [.run, .run, .exec (.logFailed e)] = some (s', ev) ∧
      Forgotten s' := by
  have hexec := exec_append (exec_announce cfg hc hpid) (exec_logFailed cfg (e := e) rfl)
  exact ⟨_, _, hexec, hpid, rfl, rfl, hpoller, hqueue⟩

end Forgotten

end LlmCtl
