/-
# The fallback of the router as a task (`proxy.rs`)

Whatever no route matches goes to `fallback`: a completion is bound to a session, sent to the
worker and recorded, and every other request is forwarded.  The pure decisions are those of
`Completion`, `PathGate` and `ProxyRequest`; this file puts the sections on the shared state
between them.
-/
import LlmCtl.ApiHandlers

namespace LlmCtl

namespace Api

open Resumption

/-! ## The worker -/

/-- `worker_base`. -/
def base (env : ApiEnv) : List UInt8 := asciiBytes (workerBase env.cfg.worker.port.toNat)

/-- The HTTP client: a response, or an error. -/
def send (_ : Outgoing) : ApiTask (Except String UpstreamResponse) := hear _

/-- `upstream.bytes()`. -/
def readBytes (u : UpstreamResponse) : ApiTask (Option (List UInt8)) := do
  match ← hear Bool with
  | true => pure (some u.chunks.flatten)
  | false => pure none

/-- `forward`. -/
def forward (env : ApiEnv) (req : Request) : ApiTask Reply :=
  match forwardRequest (base env) req with
  | .error r => pure (errJson r)
  | .ok out => do
    match ← send out with
    | .ok u => pure (.relayed (buildResponse u))
    | .error e => pure (errJson (unreachableReply e))

theorem readOnly_forward (env : ApiEnv) (req : Request) : (forward env req).ReadOnly := by
  unfold forward
  split
  · exact readOnly_pure _
  · refine .bind readOnly_hear fun answer => ?_
    cases answer <;> exact readOnly_pure _

/-! ## The record of a turn -/

/-- A section on the worker's state. -/
def onWorker (f : WorkerState → WorkerState) (s : AppState) : AppState :=
  { s with sup := { s.sup with st := f s.sup.st } }

/-- `record_turn`, within its timeout. -/
def recordTurn (env : ApiEnv) (turn : TurnRow) : ApiTask Unit := do
  if turn.sessionId = "" then pure ()
  else
    -- The timeout may come while the mutex is awaited.
    match ← hear Bool with
    | true =>
      write (onWorker fun st => st.stashTurn turn.toTurn.stash)
      if env.store then
        let now ← hear ℚ
        -- An error is logged and not looked at.
        let _ ← storeCall (.recordTurn turn now)
        pure ()
      else pure ()
    | false => pure ()

/-- The guard of the busy flag is dropped. -/
def release : ApiTask Unit := write fun s => { s with busy := false }

/-- `record_from_response`; a panic drops the guard. -/
def recordFromResponse (env : ApiEnv) (sessionId model : String) (body : Json)
    (bytes : List UInt8) : ApiTask Unit := do
  if sessionId = "" then pure ()
  else
    match env.parse bytes with
    | .error _ => pure ()
    | .ok v =>
      let ms ← hear ℚ
      match TurnRow.buildTurn env.cfg.overflowChecks (.ofBody sessionId model body)
          (.ofAnswer v) ms with
      | some turn => recordTurn env turn
      | none =>
        release
        panicked

/-- The task of `stream_and_record`, given the chunks that it reads before it leaves its loop; a
panic ends the task alone. -/
def streamTask (env : ApiEnv) (sessionId model : String) (body : Json) : ApiTask Unit := do
  let chunks ← hear (List (List UInt8))
  if sessionId = "" then pure ()
  else
    let ms ← hear ℚ
    match TurnRow.buildTurn env.cfg.overflowChecks (.ofBody sessionId model body)
        (readStream env.parseText sessionId chunks).capture ms with
    | some turn => recordTurn env turn
    | none => pure ()

/-! ## A completion -/

/-- `HeaderValue::to_str`, of the bytes of a value. -/
def valueText (value : List UInt8) : Option String :=
  headerText (String.ofList (value.map fun b => Char.ofNat b.toNat))

/-- The session binding of `handle_completion`: an error or a timeout means no session. -/
def bindSession (env : ApiEnv) (req : Request) (model : String) : ApiTask String := do
  let hint ← read AppState.activeSession
  let clientId := ((req.headers.get "x-session-id").bind valueText).or hint
  if env.store then
    let random ← hear UInt64
    let now ← hear ℚ
    match ← storeCall (.resolveSession clientId model random now) with
    | .ok () => pure (resolvedId clientId random)
    | .error _ => pure ""
  else pure ""

/-- The rest of `handle_completion`, under the guard of the busy flag. -/
def completeTurn (env : ApiEnv) (req : Request) (body : Json) (model : String) :
    ApiTask Reply := do
  let sessionId ← bindSession env req model
  match ← send ⟨.post, base env ++ req.path, filteredHeaders req.headers, req.body⟩ with
  | .error e =>
    release
    pure (errJson (unreachableReply e))
  | .ok u =>
    if reqStream body then
      -- The task does not name the guard, so it goes with the handler.
      release
      streamTask env sessionId model body
      pure (.relayed ⟨u.status, streamHeaders u.headers, u.chunks.flatten⟩)
    else
      match ← readBytes u with
      | none =>
        release
        pure (errJson readFailedReply)
      | some bytes =>
        recordFromResponse env sessionId model body bytes
        release
        pure (.relayed ⟨u.status, .ofPairs (outHeaders u.headers), bytes⟩)

/-- `handle_completion`. -/
def handleCompletion (env : ApiEnv) (req : Request) : ApiTask Reply :=
  match bodyOf env.parse req.body with
  | .tooLarge => pure (errJson ⟨413, "request body too large"⟩)
  | .invalid e => pure (errJson ⟨400, "invalid JSON body: " ++ e⟩)
  | .json body => do
    match modelGate (← read fun s => s.sup.st.modelId) (reqModel body) with
    | .error r => pure (errJson r)
    | .ok model =>
      write fun s => onWorker (fun st => st.markRequest s.sup.clock) s
      -- `compare_exchange`: the flag is set afterwards, whoever set it.
      .access (fun s => { s with busy := true }) fun s =>
        if s.busy then pure (errJson busyReply) else completeTurn env req body model

/-- `fallback`. -/
def handleFallback (env : ApiEnv) (req : Request) : ApiTask Reply :=
  match fallback env.cfg.worker.port.toNat req.method req.path with
  | .reply body => pure (.json 200 body)
  | .completion => handleCompletion env req
  | .forward => forward env req

/-- A completion for the loaded model is noted, also when it is turned away because another one is
in flight. -/
theorem runs_handleCompletion {env : ApiEnv} {req : Request} {body : Json} {s : AppState}
    {model : String} (hbody : bodyOf env.parse req.body = .json body)
    (hgate : modelGate s.sup.st.modelId (reqModel body) = .ok model) (hbusy : s.busy = true) :
    (handleCompletion env req).Runs s (errJson busyReply)
      (onWorker (fun st => st.markRequest s.sup.clock) s) := by
  unfold handleCompletion
  rw [hbody]
  refine .bind (runs_read _ s) ?_
  rw [hgate]
  refine .bind (runs_write _ s) ?_
  apply Runs.access
  have hset : ({ onWorker (fun st => st.markRequest s.sup.clock) s with busy := true } : AppState) =
      onWorker (fun st => st.markRequest s.sup.clock) s := by
    rw [← hbusy]
    rfl
  rw [hset, if_pos]
  · exact runs_pure _ _
  · exact hbusy

end Api

end LlmCtl
