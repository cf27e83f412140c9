/-
# A completion in the proxy (`proxy.rs`)

`handle_completion` takes a request through the model gate, the busy gate, the session
lookup and the request to the worker.  A plain answer is read, recorded and returned by
the handler itself; a streamed one is handed to `stream_and_record`, which starts a task
that drains the worker's stream and records the turn, and returns the response at once.

This file holds what belongs to one completion: its request, the pure decisions of the
handler, and the program points of the handler and of the drain task.  `Daemon` runs
any number of them next to the supervisor.
-/
import LlmCtl.JsonValue
import Mathlib.Data.List.Basic

namespace LlmCtl

/-! ## Requests and replies -/

/-- What `to_bytes` and `serde_json::from_slice` make of a request body. -/
inductive Body where
  | tooLarge
  | invalid (e : String)
  | json (v : Json)

/-- `err_json`: the status and the message of an error reply. -/
structure ErrorReply where
  status : ℕ
  message : String
  deriving DecidableEq, Repr

/-- `req_model`: the model that the body names, or the empty string. -/
def reqModel (v : Json) : String := ((v.get? "model").bind Json.asStr).getD ""

/-- `stream`: does the body ask for a stream? -/
def reqStream (v : Json) : Bool := ((v.get? "stream").bind Json.asBool).getD false

/-- The body's first checks: its size, and that it is JSON. -/
def readBody : Body → Except ErrorReply (String × Bool)
  | .tooLarge => .error ⟨413, "request body too large"⟩
  | .invalid e => .error ⟨400, "invalid JSON body: " ++ e⟩
  | .json v => .ok (reqModel v, reqStream v)

/-- The model gate: the model must be active.  The result is the model that the turn is
recorded under. -/
def modelGate (active : Option String) (reqModel : String) : Except ErrorReply String :=
  match active with
  | none => .error ⟨503, "no model loaded; start one first"⟩
  | some active =>
    if reqModel ≠ "" ∧ reqModel ≠ active then
      .error ⟨409, "model '" ++ reqModel ++ "' is not loaded; active model is '" ++ active ++ "'"⟩
    else .ok (if reqModel = "" then active else reqModel)

def busyReply : ErrorReply :=
  ⟨409, "another completion is already in flight; single-client mode"⟩

def unreachableReply (e : String) : ErrorReply := ⟨502, "upstream unreachable: " ++ e⟩

def readFailedReply : ErrorReply := ⟨502, "upstream read failed"⟩

/-- Without an active model every request is turned away. -/
theorem modelGate_none (reqModel : String) :
    modelGate none reqModel = .error ⟨503, "no model loaded; start one first"⟩ := rfl

/-- With an active model no request is told that none is loaded. -/
theorem modelGate_some_ne (active reqModel : String) :
    modelGate (some active) reqModel ≠ .error ⟨503, "no model loaded; start one first"⟩ := by
  unfold modelGate
  split
  · next h => exact absurd h (by simp)
  · split <;> simp

/-! ## The recorded turn -/

/-- `Turn`, as far as the model looks at it. -/
structure Turn where
  sessionId : String
  requestModel : String
  cacheN : ℤ
  promptN : ℤ
  predictedN : ℤ
  deriving DecidableEq, Repr

/-- `num_i`. -/
def numI (v : Option Json) (key : String) : ℤ :=
  ((v.bind fun x => x.get? key).bind Json.asI64).getD 0

/-- `build_turn`. -/
def buildTurn (sessionId model : String) (timings : Option Json) : Turn where
  sessionId := sessionId
  requestModel := model
  cacheN := numI timings "cache_n"
  promptN := numI timings "prompt_n"
  predictedN := numI timings "predicted_n"

/-- `record_turn`: what it stashes for the status bar. -/
def Turn.stash (t : Turn) : Json :=
  .obj [("session_id", .str t.sessionId), ("cache_n", .int t.cacheN),
    ("prompt_n", .int t.promptN), ("predicted_n", .int t.predictedN)]

/-- `record_from_response` up to `record_turn`: nothing is recorded without a session, or
when the answer is not JSON. -/
def turnOfResponse (sessionId model : String) (answer : Option Json) : Option Turn :=
  if sessionId = "" then none
  else answer.map fun v => buildTurn sessionId model (v.get? "timings")

/-- The end of the drain task up to `record_turn`, given the timings that it collected. -/
def turnOfStream (sessionId model : String) (timings : Option Json) : Option Turn :=
  if sessionId = "" then none else some (buildTurn sessionId model timings)

/-- A turn is recorded under the model that the handler holds. -/
theorem turnOfResponse_model {sessionId model : String} {answer : Option Json} {t : Turn}
    (h : turnOfResponse sessionId model answer = some t) : t.requestModel = model := by
  unfold turnOfResponse at h
  split at h
  · exact absurd h (by simp)
  · obtain ⟨v, -, rfl⟩ := Option.map_eq_some_iff.mp h
    rfl

theorem turnOfStream_model {sessionId model : String} {timings : Option Json} {t : Turn}
    (h : turnOfStream sessionId model timings = some t) : t.requestModel = model := by
  unfold turnOfStream at h
  split at h
  · exact absurd h (by simp)
  · obtain rfl := Option.some.inj h
    rfl

/-! ## Program points -/

/-- Program points of `handle_completion`.  `worker` is the child that accepted the
request. -/
inductive HandlerPc where
  | body
  | gate (reqModel : String) (stream : Bool)
  | mark (model : String) (stream : Bool)
  | acquire (model : String) (stream : Bool)
  | session (model : String) (stream : Bool)
  | send (model : String) (stream : Bool) (sessionId : String)
  | awaitHead (model : String) (stream : Bool) (sessionId : String) (worker : ℕ)
  | spawnDrain (model sessionId : String) (worker : ℕ)
  | returning
  | readBytes (model sessionId : String) (worker : ℕ)
  | stash (turn : Turn) (worker : ℕ)
  | store (turn : Turn) (worker : ℕ)
  | build
  | replied (error : Option ErrorReply)
  | dropped

/-- Program points of the task that `stream_and_record` starts. -/
inductive DrainPc where
  | absent
  | draining (model sessionId : String) (worker : ℕ)
  | stash (turn : Turn) (worker : ℕ)
  | store (turn : Turn) (worker : ℕ)
  | ended

/-- A completion: its request, its handler and its drain task.  `clientGone` tells whether
the client has left after the response was returned. -/
structure Completion where
  body : Body
  pc : HandlerPc
  drain : DrainPc
  clientGone : Bool

namespace HandlerPc

/-- Does the handler hold the `InFlight` guard? -/
def holdsGuard : HandlerPc → Bool
  | .session _ _ | .send _ _ _ | .awaitHead _ _ _ _ | .spawnDrain _ _ _ | .returning
  | .readBytes _ _ _ | .stash _ _ | .store _ _ | .build => true
  | .body | .gate _ _ | .mark _ _ | .acquire _ _ | .replied _ | .dropped => false

/-- Is the handler's next step behind an await, where its future can be dropped?  The busy
gate follows the marker, and the steps of `stream_and_record` follow each other,
without any. -/
def atAwait : HandlerPc → Bool
  | .acquire _ _ | .spawnDrain _ _ _ | .returning | .build | .replied _ | .dropped => false
  | _ => true

/-- Has the handler ended? -/
def isOver : HandlerPc → Bool
  | .replied _ | .dropped => true
  | _ => false

/-- Can the drain task exist? -/
def pastDrain : HandlerPc → Bool
  | .returning | .replied _ | .dropped => true
  | _ => false

end HandlerPc

/-- Does the drain task run? -/
def DrainPc.isRunning : DrainPc → Bool
  | .absent | .ended => false
  | _ => true

namespace Completion

/-- A request comes in. -/
def new (body : Body) : Completion where
  body := body
  pc := .body
  drain := .absent
  clientGone := false

def goto (c : Completion) (pc : HandlerPc) : Completion := { c with pc := pc }

def drainTo (c : Completion) (d : DrainPc) : Completion := { c with drain := d }

/-- Is the HTTP exchange over?  The body of a streamed response ends with the drain
task, which owns the sender. -/
def exchanged (c : Completion) : Bool :=
  c.pc.isOver && (!c.drain.isRunning || c.clientGone)

@[simp] theorem goto_pc (c : Completion) (pc : HandlerPc) : (c.goto pc).pc = pc := rfl
@[simp] theorem goto_drain (c : Completion) (pc : HandlerPc) : (c.goto pc).drain = c.drain := rfl
@[simp] theorem drainTo_pc (c : Completion) (d : DrainPc) : (c.drainTo d).pc = c.pc := rfl
@[simp] theorem drainTo_drain (c : Completion) (d : DrainPc) : (c.drainTo d).drain = d := rfl

end Completion

end LlmCtl
