/-
# The shared view of the worker (`supervisor.rs`, `config.rs`)

`WorkerState` is the record behind the supervisor's state mutex.  Every critical
section that writes it is one function here, under the name of what it does; the
order in which the tasks run these sections is the subject of `Supervisor`.

Instants are milliseconds of a monotonic clock.
-/
import Mathlib.Tactic.Simps.Basic
import LlmCtl.JsonValue

namespace LlmCtl

/-! ## Configuration -/

/-- `config::Model`: a candidate model. -/
structure Model where
  id : String
  model : String
  autostart : Bool := false
  description : String := ""
  deriving DecidableEq, Repr

/-- `config::Worker`: how the worker is run, with the defaults of its fields. -/
structure Worker where
  port : UInt16
  defaultArgs : List String := []
  gpuEnv : List (String × String) := []
  restartOnCrash : Bool := true
  maxRestarts : UInt32 := 0
  deriving Repr

/-- What is fixed while the daemon runs: the `worker` and `binary` fields of the
`Supervisor`, and whether the daemon was built with overflow checks (a debug
build) or not (a release build). -/
structure Config where
  worker : Worker
  binary : String
  overflowChecks : Bool
  deriving Repr

/-! ## The state record -/

/-- `WorkerStatus`. -/
inductive WorkerStatus where
  | stopped
  | starting
  | ready
  | stopping
  | crashed (reason : String)
  deriving DecidableEq, Repr

namespace WorkerStatus

/-- `matches!(status, WorkerStatus::Crashed(_))`. -/
def isCrashed : WorkerStatus → Bool
  | crashed _ => true
  | _ => false

@[simp] theorem isCrashed_crashed (e : String) : (crashed e).isCrashed = true := rfl
@[simp] theorem isCrashed_stopped : stopped.isCrashed = false := rfl
@[simp] theorem isCrashed_starting : starting.isCrashed = false := rfl
@[simp] theorem isCrashed_ready : ready.isCrashed = false := rfl

end WorkerStatus

/-- `WorkerState`. -/
structure WorkerState where
  modelId : Option String
  model : Option Model
  pid : Option ℕ
  status : WorkerStatus
  stopping : Bool
  startedAt : Option ℕ
  restarts : UInt8
  lastRestart : Option ℕ
  lastRequestAt : Option ℕ
  lastTurn : Option Json
  lastSlots : Option Json
  lastMetrics : Option Json

namespace WorkerState

/-- `WorkerState::new`. -/
def new : WorkerState where
  modelId := none
  model := none
  pid := none
  status := .stopped
  stopping := false
  startedAt := none
  restarts := 0
  lastRestart := none
  lastRequestAt := none
  lastTurn := none
  lastSlots := none
  lastMetrics := none

/-! ## Reading sections -/

/-- The already-running check of `start_model` and `spawn`: `model` is the active
model and a pid is recorded. -/
def isRunning (st : WorkerState) (model : Model) : Bool :=
  st.modelId == some model.id && st.pid.isSome

/-- Has more than `ms` passed since the instant `t`? -/
def elapsedMoreThan (now ms t : ℕ) : Bool := decide (ms < now - t)

/-- The first section of `maybe_restart`: is an automatic restart wanted? -/
def wantRestart (st : WorkerState) (worker : Worker) (now : ℕ) : Bool :=
  worker.restartOnCrash
    && decide (st.restarts.toUInt32 < worker.maxRestarts)
    && st.status.isCrashed
    && (st.lastRestart.map (elapsedMoreThan now 5000)).getD true

/-! ## Writing sections -/

/-- `spawn`: the section that selects `model` and announces the start. -/
@[simps] def beginSpawn (st : WorkerState) (model : Model) (now : ℕ) : WorkerState :=
  { st with
    status := .starting
    modelId := some model.id
    model := some model
    startedAt := some now
    stopping := false }

/-- `spawn`: the error section after `cmd.spawn()` failed. -/
@[simps] def spawnFailed (st : WorkerState) (e : String) : WorkerState :=
  { st with pid := none, status := .crashed ("spawn failed: " ++ e) }

/-- `spawn`: the section that records the child's pid. -/
@[simps] def recordPid (st : WorkerState) (pid : ℕ) : WorkerState :=
  { st with pid := some pid }

/-- The section of the wait task of the child `pid`: state is cleared only if it
is still that pid's. -/
def childExited (st : WorkerState) (pid : ℕ) : WorkerState :=
  if st.pid = some pid then
    { st with
      pid := none
      status := if st.stopping then .stopped else .crashed "worker exited unexpectedly" }
  else st

/-- `start_model`: an intentional switch resets the crash counter. -/
@[simps] def resetRestarts (st : WorkerState) : WorkerState :=
  { st with restarts := 0 }

/-- `stop_inner`: announce that the coming exit is deliberate. -/
@[simps] def markStopping (st : WorkerState) : WorkerState :=
  { st with stopping := true }

/-- `stop_inner`: the last section. -/
@[simps] def markStopped (st : WorkerState) : WorkerState :=
  { st with pid := none, status := .stopped, stopping := false }

/-- `maybe_restart`: count the attempt.  The counter is a `u8`, and `+ 1` wraps in a
build without overflow checks. -/
@[simps] def countRestart (st : WorkerState) (now : ℕ) : WorkerState :=
  { st with restarts := st.restarts + 1, lastRestart := some now }

/-- `poll`: the writing section, given the probe's result and the snapshot of
`status` and `started_at` that an EARLIER section took. -/
def pollResult (st : WorkerState) (ok : Bool) (status : WorkerStatus) (startedAt : Option ℕ)
    (now : ℕ) : WorkerState :=
  if ok then { st with status := .ready }
  else
    match status with
    | .starting =>
      -- A load may take a minute before a failed probe counts.
      if (startedAt.map (elapsedMoreThan now 60000)).getD false then
        { st with status := .crashed "model load timed out" }
      else st
    | .ready | .crashed _ => { st with status := .crashed "worker health check failed" }
    | _ => st

/-- `poll_slots`: the writing section. -/
@[simps] def slotsPolled (st : WorkerState) (slots metrics : Option Json) : WorkerState :=
  { st with
    lastSlots := slots.orElse fun _ => st.lastSlots
    lastMetrics := metrics.orElse fun _ => st.lastMetrics }

/-- `handle_completion`: the activity marker. -/
@[simps] def markRequest (st : WorkerState) (now : ℕ) : WorkerState :=
  { st with lastRequestAt := some now }

/-- `record_turn`: the cache stats of the turn for the status bar. -/
@[simps] def stashTurn (st : WorkerState) (turn : Json) : WorkerState :=
  { st with lastTurn := some turn }

/-! ## What the conditional sections leave alone -/

@[simp] theorem childExited_modelId (st : WorkerState) (pid : ℕ) :
    (st.childExited pid).modelId = st.modelId := by
  unfold childExited; split <;> rfl

@[simp] theorem childExited_model (st : WorkerState) (pid : ℕ) :
    (st.childExited pid).model = st.model := by
  unfold childExited; split <;> rfl

@[simp] theorem childExited_restarts (st : WorkerState) (pid : ℕ) :
    (st.childExited pid).restarts = st.restarts := by
  unfold childExited; split <;> rfl

@[simp] theorem childExited_startedAt (st : WorkerState) (pid : ℕ) :
    (st.childExited pid).startedAt = st.startedAt := by
  unfold childExited; split <;> rfl

/-- The wait task of a pid that is not recorded changes nothing. -/
theorem childExited_of_ne {st : WorkerState} {pid : ℕ} (h : st.pid ≠ some pid) :
    st.childExited pid = st := if_neg h

/-- The wait task clears the pid or leaves the whole state alone. -/
theorem childExited_cases (st : WorkerState) (pid : ℕ) :
    (st.pid ≠ some pid ∧ st.childExited pid = st) ∨
      (st.pid = some pid ∧ (st.childExited pid).pid = none ∧
        (st.childExited pid).status ≠ .ready) := by
  by_cases h : st.pid = some pid
  · refine .inr ⟨h, ?_, ?_⟩
    · simp [childExited, h]
    · simp only [childExited, if_pos h]
      cases st.stopping <;> simp
  · exact .inl ⟨h, childExited_of_ne h⟩

/-- A poll result only ever writes the status. -/
theorem pollResult_eq (st : WorkerState) (ok : Bool) (status : WorkerStatus)
    (startedAt : Option ℕ) (now : ℕ) :
    st.pollResult ok status startedAt now =
      { st with status := (st.pollResult ok status startedAt now).status } := by
  unfold pollResult
  cases ok with
  | true => rfl
  | false =>
    cases status with
    | starting => simp only [Bool.false_eq_true, if_false]; split <;> rfl
    | _ => rfl

@[simp] theorem pollResult_pid (st : WorkerState) (ok : Bool) (status : WorkerStatus)
    (startedAt : Option ℕ) (now : ℕ) :
    (st.pollResult ok status startedAt now).pid = st.pid := by
  rw [pollResult_eq]

@[simp] theorem pollResult_modelId (st : WorkerState) (ok : Bool) (status : WorkerStatus)
    (startedAt : Option ℕ) (now : ℕ) :
    (st.pollResult ok status startedAt now).modelId = st.modelId := by
  rw [pollResult_eq]

@[simp] theorem pollResult_model (st : WorkerState) (ok : Bool) (status : WorkerStatus)
    (startedAt : Option ℕ) (now : ℕ) :
    (st.pollResult ok status startedAt now).model = st.model := by
  rw [pollResult_eq]

@[simp] theorem pollResult_restarts (st : WorkerState) (ok : Bool) (status : WorkerStatus)
    (startedAt : Option ℕ) (now : ℕ) :
    (st.pollResult ok status startedAt now).restarts = st.restarts := by
  rw [pollResult_eq]

@[simp] theorem pollResult_startedAt (st : WorkerState) (ok : Bool) (status : WorkerStatus)
    (startedAt : Option ℕ) (now : ℕ) :
    (st.pollResult ok status startedAt now).startedAt = st.startedAt := by
  rw [pollResult_eq]

/-- The status that the writing section of `poll` assigns; `none` when the probe failed and
the snapshot is neither of a worker taken for ready or crashed nor of a load over a
minute old. -/
def pollVerdict (ok : Bool) (status : WorkerStatus) (startedAt : Option ℕ) (now : ℕ) :
    Option WorkerStatus :=
  if ok then some .ready
  else
    match status with
    | .starting =>
      if (startedAt.map (elapsedMoreThan now 60000)).getD false then
        some (.crashed "model load timed out")
      else none
    | .ready | .crashed _ => some (.crashed "worker health check failed")
    | .stopped | .stopping => none

/-- What `poll` writes does not depend on the status it finds. -/
theorem pollResult_status (st : WorkerState) (ok : Bool) (status : WorkerStatus)
    (startedAt : Option ℕ) (now : ℕ) :
    (st.pollResult ok status startedAt now).status =
      (pollVerdict ok status startedAt now).getD st.status := by
  unfold pollResult pollVerdict
  cases ok with
  | true => rfl
  | false =>
    cases status with
    | starting => simp only [Bool.false_eq_true, if_false]; split <;> rfl
    | _ => rfl

/-- A failed probe leaves the status or writes `Crashed`. -/
theorem isCrashed_of_pollVerdict {status v : WorkerStatus} {startedAt : Option ℕ} {now : ℕ}
    (h : pollVerdict false status startedAt now = some v) : v.isCrashed = true := by
  cases status with
  | starting =>
    simp only [pollVerdict, Bool.false_eq_true, if_false] at h
    split at h
    · obtain rfl := Option.some.inj h
      rfl
    · exact absurd h (by simp)
  | ready =>
    obtain rfl := Option.some.inj h
    rfl
  | crashed e =>
    obtain rfl := Option.some.inj h
    rfl
  | _ => exact absurd h (by simp [pollVerdict])

end WorkerState

end LlmCtl
