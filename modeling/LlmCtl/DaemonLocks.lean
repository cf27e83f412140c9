/-
# The mutexes of the daemon

What each task of the daemon does to the tokio mutexes: which one it locks, what it awaits or
locks while it keeps it, and where it branches.  A guard that is bound lives to the end of its
block; one that is a temporary, in a `let`, in an assignment or in the condition of an `if`,
is dropped at the end of the statement or of the condition.

All of them take their mutexes in one order, so that no tasks ever wait for each other in a
cycle.
-/
import LlmCtl.LockOrder

namespace LlmCtl

open EventSystem LockOrder Relation

/-! ## The mutexes -/

/-- The tokio mutexes. -/
inductive Mutex where
  | lifecycle
  | worker
  | models
  | downloadJob
  | rebuildJob
  | history
  | activeSession
  | stats
  deriving DecidableEq

/-- **The order.**  `lifecycle` and `models` come before `worker`, the download job before
`models`, and the rebuild job before `history`. -/
def Mutex.rank : Mutex → ℕ
  | .lifecycle | .downloadJob | .rebuildJob => 0
  | .models | .history => 1
  | .worker => 2
  | .activeSession | .stats => 3

namespace Locks

open Prog

/-! ## The supervisor -/

/-- `Supervisor::spawn`. -/
def spawn : Prog Mutex :=
  steps [
    lock .worker,
    -- the model may be running already
    orReturn <| steps [
      lock .worker,
      -- the log file may not open
      orReturn <| choice
        -- the command could not be spawned
        (lock .worker)
        -- its pid is noted
        (lock .worker)]]

/-- The task that waits for the child. -/
def waitTask : Prog Mutex := lock .worker

/-- `stop_inner`: reads the pid, and notes the stop if there is one. -/
def stopInner : Prog Mutex := steps [lock .worker, choice .skip (lock .worker), lock .worker]

/-- `Supervisor::stop`. -/
def stop : Prog Mutex := .hold .lifecycle stopInner

/-- `Supervisor::start_model`. -/
def startModel : Prog Mutex :=
  .hold .lifecycle <| steps [
    lock .worker,
    -- this model may be running already
    orReturn <| steps [
      -- the guard of the condition is dropped before its block
      lock .worker,
      choice .skip stopInner,
      lock .worker,
      spawn]]

/-- `Supervisor::poll`. -/
def poll : Prog Mutex := steps [lock .worker, orReturn <| steps [lock .worker, lock .worker]]

/-- `Supervisor::maybe_restart`. -/
def maybeRestart : Prog Mutex :=
  -- the daemon may be shutting down
  orReturn <| steps [
    lock .worker,
    -- no restart is wanted, or there is no model
    orReturn <| .hold .lifecycle <| steps [
      lock .worker,
      -- the worker is not crashed any more
      orReturn <| steps [lock .worker, stopInner, spawn]]]

/-- `Supervisor::poll_slots`. -/
def pollSlots : Prog Mutex := steps [lock .worker, orReturn (lock .worker)]

/-- `Supervisor::list`. -/
def list : Prog Mutex := lock .worker

/-- The poller that `main` spawns. -/
def poller : Prog Mutex := .loop (steps [poll, maybeRestart, pollSlots])

/-- The poller of the host's figures. -/
def hostStats : Prog Mutex := .loop (lock .stats)

/-! ## The jobs -/

/-- `DownloadManager::job`. -/
def downloadJob : Prog Mutex := lock .downloadJob

/-- `DownloadManager::start`. -/
def downloadStart : Prog Mutex :=
  -- the command may be empty
  orReturn <| steps [
    lock .downloadJob,
    -- a download may be running
    orReturn <| choice
      -- the command could not be spawned
      (lock .downloadJob)
      .skip]

/-- The task of a download: the guard of the job is kept while the file is looked up, and while
the list of models is locked. -/
def downloadTask : Prog Mutex :=
  .hold .downloadJob <| choice
    -- the command failed
    .skip
    (choice
      -- the file is not in the cache
      .skip
      (lock .models))

/-- `RebuildManager::job`. -/
def rebuildJob : Prog Mutex := lock .rebuildJob

/-- `RebuildManager::history`. -/
def rebuildHistory : Prog Mutex := lock .history

/-- `RebuildManager::start`. -/
def rebuildStart : Prog Mutex :=
  steps [
    lock .rebuildJob,
    -- a rebuild may be running
    orReturn (lock .rebuildJob)]

/-- The task of a rebuild: the guard of the job is kept while the history is locked. -/
def rebuildTask : Prog Mutex := .hold .rebuildJob (lock .history)

/-! ## The handlers -/

/-- `health`. -/
def health : Prog Mutex := lock .worker

/-- `handle_models`: the guard of the models is kept while the worker state is locked. -/
def handleModels : Prog Mutex := .hold .models list

/-- `handle_model_start`. -/
def handleModelStart : Prog Mutex :=
  steps [
    lock .models,
    -- the model may be unknown
    orReturn startModel]

/-- `handle_model_stop`. -/
def handleModelStop : Prog Mutex := stop

/-- `handle_session_active`. -/
def handleSessionActive : Prog Mutex := lock .activeSession

/-- `handle_status_rollup`: the worker, the models, the figures, both jobs and the history, each
guard dropped before the next section but the one of the models in `list`. -/
def handleStatusRollup : Prog Mutex :=
  steps [lock .worker, .hold .models list, lock .stats, downloadJob, rebuildJob, rebuildHistory]

/-- The handlers that lock nothing: `handle_pve`, `handle_db`, `handle_session_test`,
`handle_sessions`, `handle_hf_files`, and `forward` of the proxy. -/
def handlesNoMutex : Prog Mutex := .skip

/-! ## Completions -/

/-- `record_turn`. -/
def recordTurn : Prog Mutex :=
  -- there may be no session
  orReturn (lock .worker)

/-- `record_from_response`. -/
def recordFromResponse : Prog Mutex :=
  -- there may be no session, or no answer that can be read
  orReturn recordTurn

/-- `handle_completion`, after the body has been read. -/
def handleCompletion : Prog Mutex :=
  -- the body may be too long, or no JSON
  orReturn <| steps [
    lock .worker,
    -- no model, or another one
    orReturn <| steps [
      lock .worker,
      -- another completion is in flight
      orReturn <| steps [
        lock .activeSession,
        -- the worker is not reached, the answer is a stream, or it cannot be read
        orReturn (.timeout recordFromResponse)]]]

/-- The task of `stream_and_record`. -/
def streamTask : Prog Mutex :=
  -- there may be no session
  orReturn (.timeout recordTurn)

/-- `main`: the first worker, if a model is to be started, and the stop at the end. -/
def main : Prog Mutex := steps [choice .skip spawn, stop]

end Locks

/-! ## The daemon -/

/-- The kinds of tasks. -/
inductive TaskKind where
  | main
  | poller
  | hostStats
  | waitTask
  | downloadTask
  | rebuildTask
  | streamTask
  | health
  | handleModels
  | handleModelStart
  | handleModelStop
  | handleHfDownload
  | handleHfStatus
  | handleRebuildStart
  | handleRebuildStatus
  | handleSessionActive
  | handleStatusRollup
  | handleCompletion
  | handlesNoMutex

def TaskKind.prog : TaskKind → Prog Mutex
  | .main => Locks.main
  | .poller => Locks.poller
  | .hostStats => Locks.hostStats
  | .waitTask => Locks.waitTask
  | .downloadTask => Locks.downloadTask
  | .rebuildTask => Locks.rebuildTask
  | .streamTask => Locks.streamTask
  | .health => Locks.health
  | .handleModels => Locks.handleModels
  | .handleModelStart => Locks.handleModelStart
  | .handleModelStop => Locks.handleModelStop
  | .handleHfDownload => Locks.downloadStart
  | .handleHfStatus => Locks.downloadJob
  | .handleRebuildStart => Locks.rebuildStart
  | .handleRebuildStatus => Locks.rebuildJob
  | .handleSessionActive => Locks.handleSessionActive
  | .handleStatusRollup => Locks.handleStatusRollup
  | .handleCompletion => Locks.handleCompletion
  | .handlesNoMutex => Locks.handlesNoMutex

/-- The daemon: tasks of all kinds, any number of each, that begin at any time. -/
def daemonLocks : EventSystem (List (Todo Mutex)) (Act TaskKind) Empty := tasks TaskKind.prog

/-- **Every task takes its mutexes in the order.** -/
theorem prog_above (c : TaskKind) : c.prog.above Mutex.rank 0 = true := by
  cases c <;> decide

/-- **No lock deadlock**: the tasks never wait for each other in a cycle, nor does one wait for
itself; and whoever waits does so, over other waiting tasks, for one that does not wait. -/
theorem no_lock_deadlock {tr : List Empty} {ts : List (Todo Mutex)}
    (h : daemonLocks.Run Anything tr ts) :
    (∀ i, ¬ TransGen (WaitsFor ts) i i) ∧
      ∀ i, ∃ j, ReflTransGen (WaitsFor ts) i j ∧ ∀ k, ¬ WaitsFor ts j k := by
  have hok : AllInOrder Mutex.rank ts := allInOrder_of_run prog_above h
  have hbound : ∀ l : Mutex, l.rank < 4 := by
    intro l
    cases l <;> decide
  exact ⟨hok.acyclic, hok.chain_ends hbound⟩

/-- `/api/models` keeps the list of models and waits for the worker state, which the health check
keeps. -/
theorem no_lock_deadlock_models :
    ∃ tr ts, daemonLocks.Run Anything tr ts ∧ WaitsFor ts 0 1 ∧
      ∀ i, ¬ TransGen (WaitsFor ts) i i := by
  have hrun : daemonLocks.Run Anything ([] ++ [])
      [[.run (.lock .worker), .free .models], [.run .skip, .free .worker]] :=
    (Run.start (S := daemonLocks) rfl).perform
      [.spawn .handleModels, .spawn .health, .go 0 true, .go 1 true] _ rfl
  exact ⟨_, _, hrun, ⟨.worker, _, _, rfl, rfl, ⟨_, _, rfl⟩, rfl⟩, (no_lock_deadlock hrun).1⟩

/-- A mutex of the daemon has one holder at most. -/
theorem mutex_holder_unique {tr : List Empty} {ts : List (Todo Mutex)}
    (h : daemonLocks.Run Anything tr ts) : Exclusive ts := exclusive_of_run h

end LlmCtl
