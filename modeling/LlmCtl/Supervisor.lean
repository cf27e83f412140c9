/-
# The supervisor and its tasks (`supervisor.rs`, `main.rs`)

The supervisor is driven by several kinds of concurrent task:

* the handlers of `/models/:id/start` and `/models/stop`, any number of them;
* the poller, one task that runs `poll`, `maybe_restart` and `poll_slots` in turn;
* one wait task for each child;
* `main`, which spawns the first worker before anything else runs, and on shutdown
  marks the flag, waits for the handlers and calls `stop`.

Each atomic step is one critical section of the state mutex, one call to the
operating system, or one suspension point.  The interleaving is arbitrary, except
that the `lifecycle` mutex admits its waiters one at a time in the order they
came (`tokio::sync::Mutex` is fair).  Since the tasks that wait for `lifecycle`, or own
it, do nothing else, such a task is represented by its place in `queue`, or by the
program point `holder`.

The completions of the proxy touch the same record; here they are the actions
`markRequest` and `stashTurn`.
-/
import LlmCtl.Runs
import LlmCtl.ProcessTable

namespace LlmCtl

/-- The host that every caller of `spawn` passes. -/
def loopback : String := "127.0.0.1"

/-! ## Program points -/

/-- A task waiting for `lifecycle`. -/
inductive Waiter where
  | startModel (model : Model)
  | stop
  | maybeRestart (model : Model)
  | shutdown
  deriving DecidableEq, Repr

/-- Who called `stop_inner`, and where the caller goes on. -/
inductive StopCaller where
  | startModel (model : Model)
  | stop
  | maybeRestart (model : Model)
  | shutdown
  deriving DecidableEq, Repr

/-- Program points of `stop_inner`. -/
inductive StopPc where
  | readPid
  | setStopping (pid : ℕ)
  | term (pid : ℕ)
  | grace (pid left : ℕ)
  | sleep (pid left : ℕ)
  | killIfAlive (pid : ℕ)
  | finish
  deriving DecidableEq, Repr

/-- Who called `spawn`. -/
inductive Spawner where
  | startup
  | startModel
  | maybeRestart
  deriving DecidableEq, Repr

/-- Program points of `spawn`; `record` holds the child just created. -/
inductive SpawnPc where
  | check
  | begin
  | exec
  | failed (e : String)
  | record (child pid : ℕ)
  deriving DecidableEq, Repr

/-- Program points under the `lifecycle` lock (and `main`'s own `spawn` at startup, when
no other task exists yet). -/
inductive Crit where
  | startCheck (model : Model)
  | startPid (model : Model)
  | startReset (model : Model)
  | recheck (model : Model)
  | count (model : Model)
  | stopInner (caller : StopCaller) (pc : StopPc)
  | spawn (caller : Spawner) (model : Model) (pc : SpawnPc)
  deriving DecidableEq, Repr

/-- Program points of the poller.  `restarting` covers the time from the wait for
`lifecycle` in `maybe_restart` to its return. -/
inductive Poller where
  | off
  | idle
  | hasPid
  | probe
  | probing
  | snapshot (ok : Bool)
  | write (ok : Bool) (status : WorkerStatus) (startedAt : Option ℕ)
  | flag
  | want
  | restarting
  | slotsPid
  | slots
  | slotsWrite (slots metrics : Option Json)
  | panicked

/-- Program points of `main`. -/
inductive Main where
  | startup
  | serving
  | marked
  | stopping
  | exited
  deriving DecidableEq, Repr

/-- Everything the supervisor's tasks share, with the tasks' own positions. -/
structure Sup where
  clock : ℕ
  st : WorkerState
  shuttingDown : Bool
  queue : List Waiter
  holder : Option Crit
  procs : List Proc
  poller : Poller
  main : Main

/-! ## Actions and events -/

/-- What `worker_log_file`, `try_clone` and `cmd.spawn()` come to. -/
inductive ExecOutcome where
  | logFailed (e : String)
  | spawnFailed (e : String)
  | spawned (pid : ℕ)
  deriving DecidableEq, Repr

/-- The actions: which task moves, and what its environment answers. -/
inductive Act where
  /-- Time passes. -/
  | tick (ms : ℕ)
  /-- A running process ends by itself. -/
  | exit (i : ℕ)
  /-- An unrelated process appears. -/
  | appear (pid : ℕ) (cmdline : List String)
  /-- `child.wait()` returns in the wait task of child `i`. -/
  | reap (i : ℕ)
  /-- The state section of the wait task of child `i`. -/
  | waitSection (i : ℕ)
  /-- A handler calls `start_model`. -/
  | callStart (model : Model)
  /-- A handler calls `stop`. -/
  | callStop
  /-- The future of the `n`-th waiting handler is dropped. -/
  | dropWaiting (n : ℕ)
  /-- The future of the handler that owns `lifecycle` is dropped at an await. -/
  | dropHolder
  /-- `lifecycle` is granted to the first waiter. -/
  | grant
  /-- The owner of `lifecycle` performs its next step. -/
  | run
  /-- The owner, in `stop_inner`, calls `/bin/kill`, and no signal is sent. -/
  | killFails
  /-- The owner, in `spawn`, opens the log and creates the process. -/
  | exec (o : ExecOutcome)
  /-- The poller performs its next step. -/
  | poll
  /-- The health probe is answered with success by process `answeredBy`, or fails. -/
  | probeAnswer (answeredBy : Option ℕ)
  /-- `/slots` and `/metrics` answer. -/
  | slotsAnswer (slots metrics : Option Json)
  /-- SIGTERM or SIGINT: `mark_shutting_down`. -/
  | markShuttingDown
  /-- The HTTP handlers have drained, and `main` calls `stop`. -/
  | drained
  /-- A completion sets the activity marker. -/
  | markRequest
  /-- A completion stashes its turn. -/
  | stashTurn (turn : Json)

/-- The signals that `stop_inner` sends. -/
inductive Signal where
  | term
  | kill
  deriving DecidableEq, Repr

/-- What an observer of the supervisor sees. -/
inductive Event where
  /-- `lifecycle` was granted. -/
  | acquired (w : Waiter)
  /-- `spawn` announced a start of `model` (and wrote it to the state). -/
  | spawning (caller : Spawner) (model : Model)
  /-- `cmd.spawn()` created the child with this table index. -/
  | launched (caller : Spawner) (child : ℕ) (model : Model)
  /-- `start_model` reset the crash counter. -/
  | restartsReset
  /-- `maybe_restart` counted an attempt. -/
  | restartCounted
  /-- That increment overflowed the `u8`. -/
  | restartsOverflowed
  | signalled (sig : Signal) (pid : ℕ)
  /-- `start_model` returned `Ok` or `Err`. -/
  | startReturned (model : Model) (ok : Bool)
  /-- A call of `stop` returned; `final` for the one that ends the daemon. -/
  | stopReturned (final : Bool)
  /-- `maybe_restart` found a crash to restart from, and cloned the model. -/
  | restartWanted
  /-- The health probe was sent while this child was the current worker. -/
  | probeSent (worker : Option ℕ)
  /-- The writing section of `poll`: whether the probe succeeded, the status before and
  after, and the child that was the current worker then. -/
  | polled (ok : Bool) (before after : WorkerStatus) (worker : Option ℕ)
  deriving DecidableEq, Repr

namespace Sup

/-- The state in which `main` begins: a model to start, or none. -/
def init (autostart : Option Model) : Sup where
  clock := 0
  st := .new
  shuttingDown := false
  queue := []
  holder := autostart.map fun m => .spawn .startup m .check
  procs := []
  poller := if autostart.isSome then .off else .idle
  main := if autostart.isSome then .startup else .serving

/-- The child that the state's pid stands for. -/
def worker (s : Sup) : Option ℕ := s.st.pid.bind (workerOf s.procs)

/-- The lock's owner goes on at `c`. -/
def goto (s : Sup) (c : Crit) : Sup := { s with holder := some c }

/-- The guard of `lifecycle` is dropped. -/
def release (s : Sup) : Sup := { s with holder := none }

@[simp] theorem goto_holder (s : Sup) (c : Crit) : (s.goto c).holder = some c := rfl
@[simp] theorem goto_st (s : Sup) (c : Crit) : (s.goto c).st = s.st := rfl
@[simp] theorem goto_procs (s : Sup) (c : Crit) : (s.goto c).procs = s.procs := rfl
@[simp] theorem goto_poller (s : Sup) (c : Crit) : (s.goto c).poller = s.poller := rfl
@[simp] theorem goto_queue (s : Sup) (c : Crit) : (s.goto c).queue = s.queue := rfl
@[simp] theorem goto_main (s : Sup) (c : Crit) : (s.goto c).main = s.main := rfl
@[simp] theorem goto_shuttingDown (s : Sup) (c : Crit) :
    (s.goto c).shuttingDown = s.shuttingDown := rfl
@[simp] theorem release_holder (s : Sup) : s.release.holder = none := rfl
@[simp] theorem release_st (s : Sup) : s.release.st = s.st := rfl
@[simp] theorem release_procs (s : Sup) : s.release.procs = s.procs := rfl
@[simp] theorem release_poller (s : Sup) : s.release.poller = s.poller := rfl
@[simp] theorem release_queue (s : Sup) : s.release.queue = s.queue := rfl
@[simp] theorem release_main (s : Sup) : s.release.main = s.main := rfl
@[simp] theorem release_shuttingDown (s : Sup) : s.release.shuttingDown = s.shuttingDown := rfl

end Sup

/-! ## The tasks that own `lifecycle` -/

/-- Where a waiter starts once it owns the lock. -/
def Waiter.entry : Waiter → Crit
  | .startModel m => .startCheck m
  | .stop => .stopInner .stop .readPid
  | .maybeRestart m => .recheck m
  | .shutdown => .stopInner .shutdown .readPid

/-- Is the waiter an HTTP handler (and not the poller or `main`)? -/
def Waiter.isHandler : Waiter → Bool
  | .startModel _ | .stop => true
  | .maybeRestart _ | .shutdown => false

/-- Is the owner an HTTP handler? -/
def Crit.isHandler : Crit → Bool
  | .startCheck _ | .startPid _ | .startReset _ => true
  | .recheck _ | .count _ => false
  | .stopInner caller _ =>
    match caller with
    | .startModel _ | .stop => true
    | .maybeRestart _ | .shutdown => false
  | .spawn caller _ _ => caller == .startModel

/-- Is the owner's next step behind an await, where its future can be dropped?  The
signals follow the section before them, and `cmd.spawn()` the one that announces the
start, without any await. -/
def Crit.atAwait : Crit → Bool
  | .stopInner _ pc =>
    match pc with
    | .term _ | .grace _ _ | .killIfAlive _ => false
    | _ => true
  | .spawn _ _ pc => pc != .exec
  | _ => true

/-- What follows `stop_inner` in each of its callers. -/
def afterStop (s : Sup) : StopCaller → Sup × List Event
  | .startModel m => (s.goto (.startReset m), [])
  | .maybeRestart m => (s.goto (.spawn .maybeRestart m .check), [])
  | .stop => (s.release, [.stopReturned false])
  | .shutdown => ({ s.release with main := .exited }, [.stopReturned true])

/-- One step of `stop_inner`; where it calls `/bin/kill`, the signal is delivered. -/
def stopInnerStep (s : Sup) (caller : StopCaller) : StopPc → Sup × List Event
  | .readPid =>
    match s.st.pid with
    | some pid => (s.goto (.stopInner caller (.setStopping pid)), [])
    | none => (s.goto (.stopInner caller .finish), [])
  | .setStopping pid =>
    ({ s with st := s.st.markStopping }.goto (.stopInner caller (.term pid)), [])
  | .term pid => (s.goto (.stopInner caller (.grace pid 10)), [.signalled .term pid])
  | .grace pid left =>
    match left with
    -- Ten looks, 500 ms apart, are over; the KILL has a look of its own.
    | 0 => (s.goto (.stopInner caller (.killIfAlive pid)), [])
    | n + 1 =>
      if pidAlive s.procs pid then (s.goto (.stopInner caller (.sleep pid n)), [])
      else (s.goto (.stopInner caller (.killIfAlive pid)), [])
  | .sleep pid left => (s.goto (.stopInner caller (.grace pid left)), [])
  | .killIfAlive pid =>
    if pidAlive s.procs pid then
      ({ s with procs := sigkill s.procs pid }.goto (.stopInner caller .finish),
        [.signalled .kill pid])
    else (s.goto (.stopInner caller .finish), [])
  | .finish => afterStop { s with st := s.st.markStopped } caller

/-- `stop_inner` when `/bin/kill` cannot be run, or fails: what `status()` returns is thrown
away, so the owner goes on as if the signal had been sent. -/
def killFailsStep (s : Sup) (caller : StopCaller) : StopPc → Option (Sup × List Event)
  | .term pid => some (s.goto (.stopInner caller (.grace pid 10)), [])
  | .killIfAlive pid =>
    if pidAlive s.procs pid then some (s.goto (.stopInner caller .finish), []) else none
  | .readPid | .setStopping _ | .grace _ _ | .sleep _ _ | .finish => none

/-- What the return of `spawn` means to each of its callers. -/
def spawnReturned (s : Sup) (model : Model) (ok : Bool) : Spawner → Sup × List Event
  | .startModel => (s.release, [.startReturned model ok])
  | .maybeRestart => ({ s.release with poller := .slotsPid }, [])
  | .startup =>
    if ok then ({ s.release with main := .serving, poller := .idle }, [])
    -- `main` returns the error.
    else ({ s.release with main := .exited }, [])

/-- One step of `spawn`, up to the call to the operating system. -/
def spawnStep (s : Sup) (caller : Spawner) (model : Model) :
    SpawnPc → Option (Sup × List Event)
  | .check =>
    if s.st.isRunning model then some (spawnReturned s model true caller)
    else some (s.goto (.spawn caller model .begin), [])
  | .begin =>
    some ({ s with st := s.st.beginSpawn model s.clock }.goto (.spawn caller model .exec),
      [.spawning caller model])
  | .exec => none
  | .failed e => some (spawnReturned { s with st := s.st.spawnFailed e } model false caller)
  | .record child pid =>
    some (spawnReturned
      { s with st := s.st.recordPid pid, procs := s.procs.modify child Proc.startWait }
      model true caller)

/-- `spawn`: open the log, build the command and create the process. -/
def execStep (cfg : Config) (s : Sup) (caller : Spawner) (model : Model) :
    ExecOutcome → Option (Sup × List Event)
  -- `?` returns with the status still at `Starting`.
  | .logFailed _ => some (spawnReturned s model false caller)
  | .spawnFailed e => some (s.goto (.spawn caller model (.failed e)), [])
  | .spawned pid =>
    if pidFree s.procs pid then
      some ({ s with procs := s.procs ++ [newChild cfg model loopback pid] }.goto
          (.spawn caller model (.record s.procs.length pid)),
        [.launched caller s.procs.length model])
    else none

/-- `maybe_restart`: `st.restarts += 1`.  On overflow a build with overflow checks panics,
which ends the poller task and drops both guards; other builds wrap. -/
def countStep (cfg : Config) (s : Sup) (model : Model) : Sup × List Event :=
  let counted :=
    { s with st := s.st.countRestart s.clock }.goto (.stopInner (.maybeRestart model) .readPid)
  if s.st.restarts.toNat = 255 then
    if cfg.overflowChecks then
      ({ s.release with poller := .panicked }, [.restartsOverflowed])
    else (counted, [.restartsOverflowed, .restartCounted])
  else (counted, [.restartCounted])

/-- The next step of the owner of `lifecycle`. -/
def holderStep (cfg : Config) (s : Sup) : Crit → Option (Sup × List Event)
  | .startCheck m =>
    if s.st.isRunning m then some (s.release, [.startReturned m true])
    else some (s.goto (.startPid m), [])
  | .startPid m =>
    -- A section of its own: the pid may be gone since the check.
    if s.st.pid.isSome then some (s.goto (.stopInner (.startModel m) .readPid), [])
    else some (s.goto (.startReset m), [])
  | .startReset m =>
    some ({ s with st := s.st.resetRestarts }.goto (.spawn .startModel m .check),
      [.restartsReset])
  | .recheck m =>
    if s.st.status.isCrashed then some (s.goto (.count m), [])
    else some ({ s.release with poller := .slotsPid }, [])
  | .count m => some (countStep cfg s m)
  | .stopInner caller pc => some (stopInnerStep s caller pc)
  | .spawn caller m pc => spawnStep s caller m pc

/-! ## What the returns leave alone -/

section Returns

variable (s : Sup)

@[simp] theorem afterStop_st (caller : StopCaller) : (afterStop s caller).1.st = s.st := by
  cases caller <;> rfl

@[simp] theorem afterStop_procs (caller : StopCaller) :
    (afterStop s caller).1.procs = s.procs := by
  cases caller <;> rfl

@[simp] theorem afterStop_queue (caller : StopCaller) :
    (afterStop s caller).1.queue = s.queue := by
  cases caller <;> rfl

@[simp] theorem afterStop_poller (caller : StopCaller) :
    (afterStop s caller).1.poller = s.poller := by
  cases caller <;> rfl

@[simp] theorem afterStop_shuttingDown (caller : StopCaller) :
    (afterStop s caller).1.shuttingDown = s.shuttingDown := by
  cases caller <;> rfl

variable (m : Model) (ok : Bool)

@[simp] theorem spawnReturned_holder (caller : Spawner) :
    (spawnReturned s m ok caller).1.holder = none := by
  cases caller <;> cases ok <;> rfl

@[simp] theorem spawnReturned_st (caller : Spawner) :
    (spawnReturned s m ok caller).1.st = s.st := by
  cases caller <;> cases ok <;> rfl

@[simp] theorem spawnReturned_procs (caller : Spawner) :
    (spawnReturned s m ok caller).1.procs = s.procs := by
  cases caller <;> cases ok <;> rfl

@[simp] theorem spawnReturned_queue (caller : Spawner) :
    (spawnReturned s m ok caller).1.queue = s.queue := by
  cases caller <;> cases ok <;> rfl

@[simp] theorem spawnReturned_shuttingDown (caller : Spawner) :
    (spawnReturned s m ok caller).1.shuttingDown = s.shuttingDown := by
  cases caller <;> cases ok <;> rfl

@[simp] theorem spawnReturned_clock (caller : Spawner) :
    (spawnReturned s m ok caller).1.clock = s.clock := by
  cases caller <;> cases ok <;> rfl

/-- Counting an attempt: the lock's owner goes on to stop the stale worker, or the poller
has panicked and left the shared data alone. -/
theorem countStep_cases (cfg : Config) :
    (countStep cfg s m = ({ s.release with poller := .panicked }, [.restartsOverflowed]) ∧
        s.st.restarts.toNat = 255) ∨
      ((countStep cfg s m).1 =
          { s with st := s.st.countRestart s.clock }.goto
            (.stopInner (.maybeRestart m) .readPid) ∧
        ((s.st.restarts.toNat = 255 ∧
            (countStep cfg s m).2 = [.restartsOverflowed, .restartCounted]) ∨
          (s.st.restarts.toNat ≠ 255 ∧ (countStep cfg s m).2 = [.restartCounted]))) := by
  by_cases hr : s.st.restarts.toNat = 255
  · cases ho : cfg.overflowChecks with
    | true => exact .inl ⟨by simp [countStep, hr, ho], hr⟩
    | false => exact .inr ⟨by simp [countStep, hr, ho], .inl ⟨hr, by simp [countStep, hr, ho]⟩⟩
  · exact .inr ⟨by simp [countStep, hr], .inr ⟨hr, by simp [countStep, hr]⟩⟩

/-- Counting an attempt writes the counter and its instant, and nothing else of the record. -/
@[simp] theorem countStep_procs (cfg : Config) : (countStep cfg s m).1.procs = s.procs := by
  rcases countStep_cases s m cfg with ⟨heq, -⟩ | ⟨heq, -⟩ <;> rw [heq] <;> rfl

@[simp] theorem countStep_pid (cfg : Config) : (countStep cfg s m).1.st.pid = s.st.pid := by
  rcases countStep_cases s m cfg with ⟨heq, -⟩ | ⟨heq, -⟩ <;> rw [heq] <;> rfl

@[simp] theorem countStep_status (cfg : Config) :
    (countStep cfg s m).1.st.status = s.st.status := by
  rcases countStep_cases s m cfg with ⟨heq, -⟩ | ⟨heq, -⟩ <;> rw [heq] <;> rfl

@[simp] theorem countStep_modelId (cfg : Config) :
    (countStep cfg s m).1.st.modelId = s.st.modelId := by
  rcases countStep_cases s m cfg with ⟨heq, -⟩ | ⟨heq, -⟩ <;> rw [heq] <;> rfl

@[simp] theorem countStep_startedAt (cfg : Config) :
    (countStep cfg s m).1.st.startedAt = s.st.startedAt := by
  rcases countStep_cases s m cfg with ⟨heq, -⟩ | ⟨heq, -⟩ <;> rw [heq] <;> rfl

@[simp] theorem countStep_clock (cfg : Config) : (countStep cfg s m).1.clock = s.clock := by
  rcases countStep_cases s m cfg with ⟨heq, -⟩ | ⟨heq, -⟩ <;> rw [heq] <;> rfl

/-- The owner goes on in `stop_inner`, or is gone. -/
theorem countStep_holder (cfg : Config) :
    (countStep cfg s m).1.holder = none ∨
      (countStep cfg s m).1.holder = some (.stopInner (.maybeRestart m) .readPid) := by
  rcases countStep_cases s m cfg with ⟨heq, -⟩ | ⟨heq, -⟩
  · exact .inl (by rw [heq]; rfl)
  · exact .inr (by rw [heq]; rfl)

end Returns

/-! ## The poller -/

/-- The next step of the poller, where it does not wait for an answer. -/
def pollerStep (cfg : Config) (s : Sup) : Option (Sup × List Event) :=
  match s.poller with
  | .idle => some ({ s with poller := .hasPid }, [])
  | .hasPid => some ({ s with poller := if s.st.pid.isSome then .probe else .flag }, [])
  | .probe => some ({ s with poller := .probing }, [.probeSent s.worker])
  | .snapshot ok =>
    some ({ s with poller := .write ok s.st.status s.st.startedAt }, [])
  | .write ok status startedAt =>
    -- Neither the pid nor the status is looked at again.
    let st := s.st.pollResult ok status startedAt s.clock
    some ({ s with st := st, poller := .flag }, [.polled ok s.st.status st.status s.worker])
  | .flag => some ({ s with poller := if s.shuttingDown then .slotsPid else .want }, [])
  | .want =>
    match s.st.model with
    | some m =>
      if s.st.wantRestart cfg.worker s.clock then
        -- The model is cloned here, before the wait for `lifecycle`.
        some ({ s with poller := .restarting, queue := s.queue ++ [.maybeRestart m] },
          [.restartWanted])
      else some ({ s with poller := .slotsPid }, [])
    | none => some ({ s with poller := .slotsPid }, [])
  | .slotsPid => some ({ s with poller := if s.st.pid.isSome then .slots else .idle }, [])
  | .slotsWrite slots metrics =>
    some ({ s with st := s.st.slotsPolled slots metrics, poller := .idle }, [])
  | .off | .probing | .restarting | .slots | .panicked => none

/-! ## The system -/

/-- Is some handler waiting for `lifecycle` or owning it? -/
def Sup.handlerActive (s : Sup) : Bool :=
  s.queue.any Waiter.isHandler || s.holder.any Crit.isHandler

/-- Can handlers still be accepted?  The flag is set a little before the server stops
accepting. -/
def Main.accepts : Main → Bool
  | .serving | .marked => true
  | .startup | .stopping | .exited => false

/-- **One atomic step of the supervisor.** -/
def step (cfg : Config) (s : Sup) : Act → Option (Sup × List Event)
  | .tick ms => some ({ s with clock := s.clock + ms }, [])
  | .exit i =>
    match s.procs[i]? with
    | some c =>
      if c.status = .running then some ({ s with procs := s.procs.modify i Proc.die }, [])
      else none
    | none => none
  | .appear pid cmdline =>
    if pidFree s.procs pid then
      some ({ s with procs := s.procs ++ [stranger pid cmdline] }, [])
    else none
  | .reap i =>
    match s.procs[i]? with
    | some c =>
      if c.wait = .waiting ∧ c.status = .zombie then
        some ({ s with procs := s.procs.modify i Proc.reap }, [])
      else none
    | none => none
  | .waitSection i =>
    match s.procs[i]? with
    | some c =>
      if c.wait = .exited then
        some ({ s with
          st := s.st.childExited c.pid
          procs := s.procs.modify i Proc.waitDone }, [])
      else none
    | none => none
  | .callStart m =>
    if s.main.accepts then some ({ s with queue := s.queue ++ [.startModel m] }, []) else none
  | .callStop =>
    if s.main.accepts then some ({ s with queue := s.queue ++ [.stop] }, []) else none
  | .dropWaiting n =>
    match s.queue[n]? with
    | some w =>
      if w.isHandler then some ({ s with queue := s.queue.eraseIdx n }, []) else none
    | none => none
  | .dropHolder =>
    match s.holder with
    | some c => if c.isHandler && c.atAwait then some (s.release, []) else none
    | none => none
  | .grant =>
    match s.holder, s.queue with
    | none, w :: ws => some ({ s with queue := ws }.goto w.entry, [.acquired w])
    | _, _ => none
  | .run =>
    match s.holder with
    | some c => holderStep cfg s c
    | none => none
  | .killFails =>
    match s.holder with
    | some (.stopInner caller pc) => killFailsStep s caller pc
    | _ => none
  | .exec o =>
    match s.holder with
    | some (.spawn caller m .exec) => execStep cfg s caller m o
    | _ => none
  | .poll => pollerStep cfg s
  | .probeAnswer answeredBy =>
    match s.poller with
    | .probing =>
      match answeredBy with
      | none => some ({ s with poller := .snapshot false }, [])
      | some i =>
        -- The probe goes to a port, so any live child may answer it.
        if s.procs[i]?.any Proc.live then some ({ s with poller := .snapshot true }, [])
        else none
    | _ => none
  | .slotsAnswer slots metrics =>
    match s.poller with
    | .slots => some ({ s with poller := .slotsWrite slots metrics }, [])
    | _ => none
  | .markShuttingDown =>
    if s.main = .serving then
      some ({ s with main := .marked, shuttingDown := true }, [])
    else none
  | .drained =>
    -- `axum::serve` returns once no handler is left.
    if s.main = .marked ∧ s.handlerActive = false then
      some ({ s with main := .stopping, queue := s.queue ++ [.shutdown] }, [])
    else none
  | .markRequest => some ({ s with st := s.st.markRequest s.clock }, [])
  | .stashTurn turn => some ({ s with st := s.st.stashTurn turn }, [])

/-- The supervisor as a system with events. -/
def supervisor (cfg : Config) : EventSystem Sup Act Event where
  init := fun s => ∃ autostart, s = Sup.init autostart
  step := step cfg

/-! ## A sample daemon -/

/-- A configuration for concrete runs, with the cap and the port of `config.example.toml`. -/
def sampleConfig : Config where
  worker := { port := 8080, defaultArgs := ["-np", "1"], maxRestarts := 5 }
  binary := "/opt/llama-server"
  overflowChecks := false

def modelA : Model where
  id := "a"
  model := "/models/a.gguf"

def modelB : Model where
  id := "b"
  model := "/models/b.gguf"

/-- A handler starts `m` while no worker is recorded, up to the call of `cmd.spawn()`. -/
def startUntilExec (m : Model) : List Act :=
  [.callStart m, .grant, .run, .run, .run, .run, .run]

/-- The whole `start_model`. -/
def startFully (m : Model) (pid : ℕ) : List Act :=
  startUntilExec m ++ [.exec (.spawned pid), .run]

/-- A poll cycle from the idle poller: the probe is sent, answered and written. -/
def pollOnce (answeredBy : Option ℕ) : List Act :=
  [.poll, .poll, .poll, .probeAnswer answeredBy, .poll, .poll]

/-- The rest of the cycle while no restart is wanted and a worker is recorded. -/
def pollRest : List Act := [.poll, .poll, .poll, .slotsAnswer none none, .poll]

end LlmCtl
