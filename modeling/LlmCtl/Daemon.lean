/-
# The daemon: supervisor and completions together (`proxy.rs`, `main.rs`)

Any number of completions runs next to the supervisor.  They share with it the worker
state (the model gate reads `model_id`; the activity marker and the stashed turn are
written) and the worker's port, which is answered by a live child.  Among themselves
they share the `busy` flag.

Each step of a handler or of a drain task is one section, one atomic access or one
answer from outside; the interleaving is arbitrary.  A client may leave at any time:
while the handler runs its future is dropped at an await, with the `InFlight` guard if
it holds one; afterwards the drain task just goes on.
-/
import LlmCtl.Completion
import LlmCtl.SingleWorker

namespace LlmCtl

open EventSystem

/-! ## State, actions, events -/

/-- The daemon.  A completion's index in `comps` is its identity. -/
structure Daemon where
  sup : Sup
  busy : Bool
  comps : List Completion

/-- What happens to a handler: it goes on by itself, or the environment answers. -/
inductive HandlerAct where
  | next
  /-- The session lookup ends; an empty id when there is none. -/
  | session (sessionId : String)
  /-- The child `worker` accepts the request. -/
  | reached (worker : ℕ)
  /-- Sending the request or reading the answer fails. -/
  | failed (e : String)
  /-- The whole answer is read, and may be JSON. -/
  | bytes (answer : Option Json)
  /-- The ten seconds for the record are over. -/
  | cut
  /-- The call of the store ends, or is cut, with or without a commit. -/
  | stored (committed : Bool)

/-- How the drain loop ends. -/
inductive DrainEnd where
  | eof
  | upstreamError
  | idleTimeout
  | deadline
  | panicked
  deriving DecidableEq, Repr

/-- What happens to a drain task; `stop` comes with the timings collected so far. -/
inductive DrainAct where
  | stop (why : DrainEnd) (timings : Option Json)
  | next
  | cut
  | stored (committed : Bool)

inductive DaemonAct where
  | sup (a : Act)
  | call (body : Body)
  | handler (i : ℕ) (h : HandlerAct)
  | drain (i : ℕ) (t : DrainAct)
  /-- The client leaves while the handler is at an await. -/
  | drop (i : ℕ)
  /-- The client leaves after the response was returned. -/
  | disconnect (i : ℕ)

inductive DaemonEvent where
  | sup (e : Event)
  /-- The model gate let the completion pass for `model`. -/
  | passed (i : ℕ) (model : String)
  /-- `InFlight::acquire` succeeded. -/
  | acquired (i : ℕ)
  /-- The worker accepted the request of a completion that the gate let pass for `model`. -/
  | sent (i : ℕ) (model : String) (worker : ℕ)
  /-- The store committed the turn of the answer that `worker` gave. -/
  | recorded (i : ℕ) (turn : Turn) (worker : ℕ)
  /-- The `InFlight` guard was dropped. -/
  | released (i : ℕ)
  /-- The turn is over: the response is built, an error is returned, the handler is gone,
  or the drain task has finished. -/
  | turnOver (i : ℕ)
  deriving DecidableEq, Repr

namespace Daemon

/-- The daemon in which `main` begins. -/
def init (autostart : Option Model) : Daemon where
  sup := .init autostart
  busy := false
  comps := []

def setPc (d : Daemon) (i : ℕ) (pc : HandlerPc) : Daemon :=
  { d with comps := d.comps.modify i fun c => c.goto pc }

def setDrain (d : Daemon) (i : ℕ) (t : DrainPc) : Daemon :=
  { d with comps := d.comps.modify i fun c => c.drainTo t }

/-- A section of the proxy on the worker state. -/
def touch (d : Daemon) (st : WorkerState) : Daemon := { d with sup := { d.sup with st := st } }

/-- The guard is dropped. -/
def unlock (d : Daemon) : Daemon := { d with busy := false }

/-- An error reply without the guard. -/
def reject (d : Daemon) (i : ℕ) (r : ErrorReply) : Daemon × List DaemonEvent :=
  (d.setPc i (.replied (some r)), [])

/-- The handler that holds the guard ends at `pc`, and its turn with it. -/
def finish (d : Daemon) (i : ℕ) (pc : HandlerPc) : Daemon × List DaemonEvent :=
  (d.unlock.setPc i pc, [.released i, .turnOver i])

/-- May the supervisor's tasks take this step?  The writes of the completions are steps of
the completions, and the server has drained only when every exchange is over. -/
def admits (d : Daemon) : Act → Bool
  | .markRequest | .stashTurn _ => false
  | .drained => d.comps.all Completion.exchanged
  | _ => true

end Daemon

/-! ## The handler -/

/-- `handle_completion` goes on by itself. -/
def handlerNext (d : Daemon) (i : ℕ) (c : Completion) : Option (Daemon × List DaemonEvent) :=
  match c.pc with
  | .body =>
    match readBody c.body with
    | .error r => some (d.reject i r)
    | .ok (m, stream) => some (d.setPc i (.gate m stream), [])
  | .gate m stream =>
    match modelGate d.sup.st.modelId m with
    | .error r => some (d.reject i r)
    | .ok model => some (d.setPc i (.mark model stream), [.passed i model])
  | .mark model stream =>
    some ((d.touch (d.sup.st.markRequest d.sup.clock)).setPc i (.acquire model stream), [])
  | .acquire model stream =>
    -- The marker is set already, also for a request that is turned away here.
    if d.busy then some (d.reject i busyReply)
    else some ({ d with busy := true }.setPc i (.session model stream), [.acquired i])
  | .awaitHead model stream sessionId worker =>
    if stream then some (d.setPc i (.spawnDrain model sessionId worker), [])
    else some (d.setPc i (.readBytes model sessionId worker), [])
  | .spawnDrain model sessionId worker =>
    -- The task does not name the guard, so the guard stays with the handler.
    some ((d.setPc i .returning).setDrain i (.draining model sessionId worker), [])
  -- The guard is a parameter and is dropped with the frame.
  | .returning => some (d.unlock.setPc i (.replied none), [.released i])
  | .stash turn worker =>
    some ((d.touch (d.sup.st.stashTurn turn.stash)).setPc i (.store turn worker), [])
  | .build => some (d.finish i (.replied none))
  | _ => none

/-- One step of `handle_completion`. -/
def handlerStep (d : Daemon) (i : ℕ) (c : Completion) :
    HandlerAct → Option (Daemon × List DaemonEvent)
  | .next => handlerNext d i c
  | .session sessionId =>
    match c.pc with
    | .session model stream => some (d.setPc i (.send model stream sessionId), [])
    | _ => none
  | .reached worker =>
    match c.pc with
    | .send model stream sessionId =>
      -- The worker's port is fixed, so any live child may be behind it.
      if d.sup.procs[worker]?.any Proc.live then
        some (d.setPc i (.awaitHead model stream sessionId worker), [.sent i model worker])
      else none
    | _ => none
  | .failed e =>
    match c.pc with
    | .send _ _ _ | .awaitHead _ _ _ _ =>
      some (d.finish i (.replied (some (unreachableReply e))))
    | .readBytes _ _ _ => some (d.finish i (.replied (some readFailedReply)))
    | _ => none
  | .bytes answer =>
    match c.pc with
    | .readBytes model sessionId worker =>
      match turnOfResponse sessionId model answer with
      | some turn => some (d.setPc i (.stash turn worker), [])
      | none => some (d.setPc i .build, [])
    | _ => none
  | .cut =>
    match c.pc with
    | .stash _ _ => some (d.setPc i .build, [])
    | _ => none
  | .stored committed =>
    match c.pc with
    | .store turn worker =>
      some (d.setPc i .build, if committed then [.recorded i turn worker] else [])
    | _ => none

/-! ## The drain task -/

/-- One step of the task of `stream_and_record`. -/
def drainStep (d : Daemon) (i : ℕ) (c : Completion) :
    DrainAct → Option (Daemon × List DaemonEvent)
  | .stop why timings =>
    match c.drain with
    | .draining model sessionId worker =>
      match turnOfStream sessionId model timings with
      | some turn =>
        -- A panic unwinds past the record.
        if why = .panicked then some (d.setDrain i .ended, [.turnOver i])
        else some (d.setDrain i (.stash turn worker), [])
      | none => some (d.setDrain i .ended, [.turnOver i])
    | _ => none
  | .next =>
    match c.drain with
    | .stash turn worker =>
      some ((d.touch (d.sup.st.stashTurn turn.stash)).setDrain i (.store turn worker), [])
    | _ => none
  | .cut =>
    match c.drain with
    | .stash _ _ => some (d.setDrain i .ended, [.turnOver i])
    | _ => none
  | .stored committed =>
    match c.drain with
    | .store turn worker =>
      some (d.setDrain i .ended,
        .turnOver i :: if committed then [.recorded i turn worker] else [])
    | _ => none

/-! ## The system -/

/-- The handler's future is dropped at an await. -/
def dropStep (d : Daemon) (i : ℕ) (c : Completion) : Option (Daemon × List DaemonEvent) :=
  if c.pc.atAwait then
    if c.pc.holdsGuard then some (d.finish i .dropped) else some (d.setPc i .dropped, [])
  else none

/-- **One atomic step of the daemon.** -/
def daemonStep (cfg : Config) (d : Daemon) : DaemonAct → Option (Daemon × List DaemonEvent)
  | .sup a =>
    if d.admits a then
      match step cfg d.sup a with
      | some (s, ev) => some ({ d with sup := s }, ev.map .sup)
      | none => none
    else none
  | .call body =>
    if d.sup.main.accepts then some ({ d with comps := d.comps ++ [.new body] }, []) else none
  | .handler i h =>
    match d.comps[i]? with
    | some c => handlerStep d i c h
    | none => none
  | .drain i t =>
    match d.comps[i]? with
    | some c => drainStep d i c t
    | none => none
  | .drop i =>
    match d.comps[i]? with
    | some c => dropStep d i c
    | none => none
  | .disconnect i =>
    match d.comps[i]? with
    | some c =>
      match c.pc with
      | .replied _ =>
        some ({ d with comps := d.comps.modify i fun c => { c with clientGone := true } }, [])
      | _ => none
    | none => none

/-- The daemon as a system with events. -/
def daemon (cfg : Config) : EventSystem Daemon DaemonAct DaemonEvent where
  init := fun d => ∃ autostart, d = Daemon.init autostart
  step := daemonStep cfg

/-! ## Sample requests -/

/-- A completion for the model `a`. -/
def plainBody : Body := .json (.obj [("model", .str "a")])

/-- A streamed completion for whichever model is active. -/
def streamBody : Body := .json (.obj [("stream", .bool true)])

/-- Completion `i` comes in and passes the gates, in the session `s`. -/
def passGates (i : ℕ) (body : Body) : List DaemonAct :=
  [.call body, .handler i .next, .handler i .next, .handler i .next, .handler i .next,
    .handler i (.session "s")]

end LlmCtl
