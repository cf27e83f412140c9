/-
# The request handlers (`main.rs`, `proxy.rs`, `pve.rs`, `db.rs`)

Each handler is a task over the state that the requests share.  A section is one critical section
of a mutex, one transaction of the database or one operation on the busy flag; whatever the
handler learns from the network, the disk or the clock is heard from the environment.

A call of `start_model`, of `stop`, or of `start` of a job manager joins the queue or the table
of `Supervisor` or `JobManager`, whose steps it then takes; here its result is heard.  A
transaction is one section, since its rows are published all at once; the interleaving of its
statements is `SessionStore`'s.  What a handler leaves running behind its reply stands before the
reply.
-/
import LlmCtl.CacheRate
import LlmCtl.OneJob
import LlmCtl.ProxyRequest
import LlmCtl.ProxyResponse
import LlmCtl.Resumption
import LlmCtl.SessionBinding
import LlmCtl.Supervisor

namespace LlmCtl

/-! ## The shared state -/

/-- What the requests share of `AppState`, with the worker's tasks behind `sup` and the database
behind `store`; there are no tables before the first migration.  The models and the configuration
file belong to the download manager here. -/
structure AppState where
  sup : Sup
  busy : Bool
  activeSession : Option String
  tables : Option Tables
  download : DownloadManager
  rebuild : RebuildManager

/-- A body or a text of a reply. -/
inductive Reply where
  | json (status : ℕ) (body : Json)
  /-- The worker's response, passed on. -/
  | relayed (r : Response)
  | file (r : Response)
  /-- The framework turns the request away. -/
  | rejected (status : ℕ) (text : String)

/-- What is fixed while the daemon runs, and the libraries: the parsers of JSON, the extractors
of the web framework and the characters that `{:?}` prints as they are. -/
structure ApiEnv where
  cfg : Config
  hf : Hf
  unicode : Char → Bool
  /-- Did the database answer when the daemon started? -/
  store : Bool
  llamaInfo : Json
  parse : List UInt8 → Except String Json
  parseText : String → Option Json
  jsonBody : Request → Except Reply Json
  hfBody : Request → Except Reply HfDownloadReq
  pathText : List UInt8 → Except Reply String
  queryMap : Option (List UInt8) → Except Reply (List (String × String))
  printable : Char → Bool

/-- A handler, or a part of one. -/
abbrev ApiTask := Resumption AppState

namespace Api

open Resumption

/-! ## JSON -/

def nullOr {α : Type} (f : α → Json) (x : Option α) : Json := (x.map f).getD .null

/-- `json!({ "error": e })`. -/
def errorJson (e : String) : Json := .obj [("error", .str e)]

/-- `err_json`. -/
def errJson (r : ErrorReply) : Reply :=
  .json r.status (.obj [("error", .obj [("message", .str r.message)])])

/-- A character in `{:?}` of a text. -/
def debugChar (printable : Char → Bool) (c : Char) : String :=
  if c = '\x00' then "\\0"
  else if c = '\t' then "\\t"
  else if c = '\r' then "\\r"
  else if c = '\n' then "\\n"
  else if c.toNat = 34 ∨ c.toNat = 92 then String.ofList ['\\', c]
  else if printable c then String.ofList [c]
  else String.join ["\\u\x7b", String.ofList (Nat.toDigits 16 c.toNat), "\x7d"]

/-- `{:?}` of a text. -/
def debugText (printable : Char → Bool) (s : String) : String :=
  String.join ["\"", String.join (s.toList.map (debugChar printable)), "\""]

/-- `{:?}` of a `WorkerStatus`. -/
def debugStatus (printable : Char → Bool) : WorkerStatus → String
  | .stopped => "Stopped"
  | .starting => "Starting"
  | .ready => "Ready"
  | .stopping => "Stopping"
  | .crashed reason => String.join ["Crashed(", debugText printable reason, ")"]

/-- The `status` of a job. -/
def jobStatusText : JobStatus → String
  | .idle => "idle"
  | .running => "running"
  | .ok => "ok"
  | .failed => "failed"

def logJson (log : List String) : Json := .arr (log.map .str)

/-- `Job` of `download.rs`, serialised. -/
def downloadJson (j : DownloadJob) : Json :=
  .obj [("status", .str (jobStatusText j.status)), ("repo", nullOr .str j.repo),
    ("include", nullOr .str j.included), ("started_at", nullOr .float j.startedAt),
    ("finished_at", nullOr .float j.finishedAt), ("error", nullOr .str j.error),
    ("registered", nullOr .str j.registered), ("log", logJson j.log)]

/-- `Job` of `rebuild.rs`, serialised. -/
def rebuildJson (j : RebuildJob) : Json :=
  .obj [("status", .str (jobStatusText j.status)), ("started_at", nullOr .float j.startedAt),
    ("finished_at", nullOr .float j.finishedAt), ("before_sha", nullOr .str j.beforeSha),
    ("after_sha", nullOr .str j.afterSha), ("error", nullOr .str j.error),
    ("log", logJson j.log)]

/-- `BuildRecord`, serialised. -/
def buildJson (r : BuildRecord) : Json :=
  .obj [("at", .float r.at_), ("before_sha", nullOr .str r.beforeSha),
    ("after_sha", nullOr .str r.afterSha), ("ok", .bool r.ok)]

/-- `CtInfo`. -/
structure CtInfo where
  vmid : ℕ
  name : String
  status : String
  tags : String

/-- `CtInfo`, serialised. -/
def ctJson (c : CtInfo) : Json :=
  .obj [("vmid", .int c.vmid), ("name", .str c.name), ("status", .str c.status),
    ("tags", .str c.tags)]

/-! ## The other tiers -/

/-- `pve::list_containers`: a secret, a certificate file and a request to the other tier. -/
def listContainers : ApiTask (Except String (List CtInfo)) := hear _

/-- `list_containers` within a second. -/
def pveReachable : ApiTask Bool := do
  -- The timeout may come first.
  match ← hear Bool with
  | true =>
    match ← listContainers with
    | .ok _ => pure true
    | .error _ => pure false
  | false => pure false

/-- `db::probe`: a connection that is closed again. -/
def probe : ApiTask (Except String Unit) := hear _

/-! ## The store -/

/-- What a call of the database comes to: it is done, or an error reaches the daemon, be it that
the work is done or not.  A timeout is such an error. -/
inductive DbAnswer where
  | done
  | failed (e : String) (applied : Bool)

/-- The number of statements of a call. -/
def statements : StoreCall → ℕ
  | .resolveSession _ _ _ _ => 1
  | .recordTurn _ _ => 5

/-- A call, statement by statement. -/
def serial (c : StoreCall) : List (ReadCommitted.Act StoreCall) :=
  .begin c :: (List.replicate (statements c) [.start 0, .finish 0]).flatten ++ [.commit 0]

/-- The rows that are committed after a call, unless one of its statements fails. -/
def committedBy (c : StoreCall) (d : Tables) : Option Tables :=
  ((storeSystem sessionLockKey).exec ⟨d, []⟩ (serial c)).map fun r => r.1.committed

/-- The tables after a call; without tables there is nothing to write to. -/
def callTables (c : StoreCall) (tables : Option Tables) : Option Tables :=
  match tables with
  | none => none
  | some d => some ((committedBy c d).getD d)

/-- `resolve_session` or `record_turn`. -/
def storeCall (c : StoreCall) : ApiTask (Except String Unit) := do
  match ← hear DbAnswer with
  | .done =>
    .access (fun s => { s with tables := callTables c s.tables }) fun s =>
      if (s.tables.bind (committedBy c)).isSome then pure (.ok ())
      else do return .error (← hear String)
  | .failed e applied =>
    if applied then
      write fun s => { s with tables := callTables c s.tables }
      pure (.error e)
    else pure (.error e)

/-- `Store::connect`. -/
def connect : ApiTask (Except String Unit) := hear _

/-- `migrate`: the statements create what is not there. -/
def createTables (s : AppState) : AppState := { s with tables := some (s.tables.getD .empty) }

/-- `Store::migrate`. -/
def migrate : ApiTask (Except String Unit) := do
  match ← hear DbAnswer with
  | .done =>
    write createTables
    pure (.ok ())
  | .failed e applied =>
    if applied then
      write createTables
      pure (.error e)
    else pure (.error e)

/-- `Store::ping`. -/
def ping : ApiTask (Except String Unit) := hear _

/-- A `SELECT`. -/
def query {α : Type} (f : Tables → α) : ApiTask (Except String α) := do
  match ← hear (Except String Unit) with
  | .error e => pure (.error e)
  | .ok () =>
    match ← read AppState.tables with
    | some d => pure (.ok (f d))
    | none => do return .error (← hear String)

/-- `Store::count_turns`. -/
def countTurns (sessionId : String) : ApiTask (Except String ℕ) :=
  query fun d => (d.turnsOf sessionId).length

/-- `Store::record_fake_turn`. -/
def recordFakeTurn (sessionId model : String) : ApiTask (Except String ℕ) := do
  let now ← hear ℚ
  match ← storeCall (.recordTurn (.fake sessionId model) now) with
  | .error e => pure (.error e)
  | .ok () => countTurns sessionId

/-- `Store::list_sessions`; adding up the tokens of a session may panic. -/
def listSessions (env : ApiEnv) (limit : ℕ) : ApiTask (Except String (List Json)) := do
  match ← query (LlmCtl.listSessions env.cfg.overflowChecks limit) with
  | .error e => pure (.error e)
  | .ok none => panicked
  | .ok (some sessions) => pure (.ok sessions)

/-! ## The handlers that only look -/

/-- A handler with an extractor in front of it. -/
def extract {α : Type} (found : Except Reply α) (handler : α → ApiTask Reply) : ApiTask Reply :=
  match found with
  | .error r => pure r
  | .ok a => handler a

/-- `health`. -/
def health (env : ApiEnv) : ApiTask Reply := do
  let w ← read fun s => s.sup.st
  let pve ← pveReachable
  let postgres ← probe
  pure (.json 200 (.obj [("service", .str "llm-ctl"), ("status", .str "ok"),
    ("worker", .obj [("model", nullOr .str w.modelId), ("pid", nullOr (fun n : ℕ => .int n) w.pid),
      ("status", .str (debugStatus env.printable w.status)), ("slots", nullOr id w.lastSlots),
      ("metrics", nullOr id w.lastMetrics)]),
    ("cross_tier", .obj [("pve_reachable", .bool pve),
      ("postgres_reachable", .bool postgres.isOk)])]))

/-- `handle_pve`. -/
def handlePve : ApiTask Reply := do
  match ← listContainers with
  | .ok cts => pure (.json 200 (.arr (cts.map ctJson)))
  | .error e => pure (.json 502 (errorJson e))

/-- What `Supervisor::list` says about a model. -/
def modelJson (printable : Char → Bool) (st : WorkerState) (m : Model) : Json :=
  .obj [("id", .str m.id), ("model", .str m.model), ("autostart", .bool m.autostart),
    ("description", .str m.description), ("active", .bool (st.modelId == some m.id)),
    ("status", .str (debugStatus printable st.status))]

/-- `Supervisor::list`. -/
def list (env : ApiEnv) (models : List Model) : ApiTask Json := do
  let st ← read fun s => s.sup.st
  pure (.arr (models.map (modelJson env.printable st)))

/-- `handle_models`. -/
def handleModels (env : ApiEnv) : ApiTask Reply := do
  let models ← read fun s => s.download.rest.models
  let listed ← list env models
  pure (.json 200 listed)

/-- `handle_hf_status`. -/
def handleHfStatus : ApiTask Reply := do
  let job ← read fun s => s.download.job
  pure (.json 200 (downloadJson job))

/-- The answer of the file listing of a repository. -/
structure HfAnswer where
  success : Bool
  status : String
  body : Except String Json

/-- A file in the listing; the size is a `u64`. -/
def ggufFile (e : Json) : Option (String × ℕ) :=
  match (e.get? "path").bind Json.asStr with
  | none => none
  | some path =>
    if ".gguf".toList.isSuffixOf path.toList then
      match e.get? "size" with
      | some (.int n) => some (path, if 0 ≤ n ∧ n < 2 ^ 64 then n.toNat else 0)
      | _ => some (path, 0)
    else none

/-- `DownloadManager::list_files`. -/
def listFiles (repo : String) : ApiTask (Except String (List (String × ℕ))) := do
  match ← hear (Except String HfAnswer) with
  | .error e => pure (.error ("HF API unreachable: " ++ e))
  | .ok resp =>
    if !resp.success then
      pure (.error (String.join ["HF API ", resp.status, " for repo '", repo,
        "' (not found / not a model?)"]))
    else
      match resp.body with
      | .error e => pure (.error ("bad HF API response: " ++ e))
      | .ok (.arr entries) =>
        pure (.ok ((entries.filterMap ggufFile).mergeSort fun a b => decide (a.2 ≤ b.2)))
      | .ok _ => pure (.error "unexpected HF API payload")

/-- A file in the reply, with its size in megabytes. -/
def fileJson (file : String × ℕ) : Json :=
  .obj [("path", .str file.1), ("size_mb", .float ((file.2 : ℚ) / 10 ^ 6 + 1 / 2).floor)]

/-- `handle_hf_files`. -/
def handleHfFiles (env : ApiEnv) (req : Request) : ApiTask Reply :=
  extract (env.queryMap req.query) fun params => do
    let repo := trim (((params.find? fun p => p.1 == "repo").map Prod.snd).getD "")
    if repo = "" then pure (.json 400 (errorJson "missing repo query param"))
    else
      match ← listFiles repo with
      | .ok files =>
        pure (.json 200 (.obj [("repo", .str repo), ("files", .arr (files.map fileJson))]))
      | .error e => pure (.json 502 (errorJson e))

/-- `handle_rebuild_status`. -/
def handleRebuildStatus : ApiTask Reply := do
  let job ← read fun s => s.rebuild.job
  pure (.json 200 (rebuildJson job))

/-- `handle_sessions`. -/
def handleSessions (env : ApiEnv) : ApiTask Reply := do
  if env.store then
    match ← listSessions env 20 with
    | .ok v => pure (.json 200 (.obj [("sessions", .arr v)]))
    | .error e => pure (.json 502 (errorJson e))
  else pure (.json 503 (errorJson "store unavailable"))

/-- The sessions in the status page: an error leaves the list empty. -/
def rollupSessions (env : ApiEnv) : ApiTask (List Json) := do
  if env.store then
    match ← listSessions env 20 with
    | .ok v => pure v
    | .error _ => pure []
  else pure []

/-- `handle_status_rollup`. -/
def handleStatusRollup (env : ApiEnv) : ApiTask Reply := do
  let w ← read fun s => s.sup.st
  let models ← read fun s => s.download.rest.models
  let listed ← list env models
  let sessions ← rollupSessions env
  let pve ← pveReachable
  let postgres ← probe
  -- The sampled figures of the host.
  let stats ← hear Json
  let download ← read fun s => s.download.job
  let rebuild ← read fun s => s.rebuild.job
  let builds ← read fun s => s.rebuild.rest
  pure (.json 200 (.obj [
    ("worker", .obj [("model", nullOr .str w.modelId), ("pid", nullOr (fun n : ℕ => .int n) w.pid),
      ("status", .str (debugStatus env.printable w.status)),
      ("last_request_at", nullOr (fun ms : ℕ => .float ((ms : ℚ) / 1000)) w.lastRequestAt),
      ("last_turn", nullOr id w.lastTurn), ("slots", nullOr id w.lastSlots),
      ("metrics", nullOr id w.lastMetrics)]),
    ("models", listed), ("sessions", .arr sessions), ("download", downloadJson download),
    ("rebuild", rebuildJson rebuild), ("llama", env.llamaInfo),
    ("builds", .arr (builds.map buildJson)), ("stats", stats),
    ("cross_tier", .obj [("pve", .bool pve), ("postgres", .bool postgres.isOk)])]))

/-! ## What only looks -/

theorem readOnly_extract {α : Type} {found : Except Reply α} {handler : α → ApiTask Reply}
    (h : ∀ a, (handler a).ReadOnly) : (extract found handler).ReadOnly := by
  cases found with
  | error r => exact readOnly_pure r
  | ok a => exact h a

theorem readOnly_pveReachable : pveReachable.ReadOnly := by
  refine .bind readOnly_hear fun inTime => ?_
  cases inTime with
  | true =>
    refine .bind readOnly_hear fun cts => ?_
    cases cts <;> exact readOnly_pure _
  | false => exact readOnly_pure _

theorem readOnly_query {α : Type} (f : Tables → α) : (query f).ReadOnly := by
  refine .bind readOnly_hear fun answer => ?_
  cases answer with
  | error e => exact readOnly_pure _
  | ok _ =>
    refine .bind (readOnly_read _) fun tables => ?_
    cases tables with
    | none => exact .bind readOnly_hear fun e => readOnly_pure _
    | some d => exact readOnly_pure _

theorem readOnly_listSessions (env : ApiEnv) (limit : ℕ) : (listSessions env limit).ReadOnly := by
  refine .bind (readOnly_query _) fun listed => ?_
  cases listed with
  | error e => exact readOnly_pure _
  | ok sessions =>
    cases sessions with
    | none => exact readOnly_panicked
    | some sessions => exact readOnly_pure _

theorem readOnly_health (env : ApiEnv) : (health env).ReadOnly :=
  .bind (readOnly_read _) fun _ => .bind readOnly_pveReachable fun _ =>
    .bind readOnly_hear fun _ => readOnly_pure _

theorem readOnly_handlePve : handlePve.ReadOnly := by
  refine .bind readOnly_hear fun cts => ?_
  cases cts <;> exact readOnly_pure _

theorem readOnly_list (env : ApiEnv) (models : List Model) : (list env models).ReadOnly :=
  .bind (readOnly_read _) fun _ => readOnly_pure _

theorem readOnly_handleModels (env : ApiEnv) : (handleModels env).ReadOnly :=
  .bind (readOnly_read _) fun models => .bind (readOnly_list env models) fun _ => readOnly_pure _

theorem readOnly_handleHfStatus : handleHfStatus.ReadOnly :=
  .bind (readOnly_read _) fun _ => readOnly_pure _

theorem readOnly_listFiles (repo : String) : (listFiles repo).ReadOnly := by
  refine .bind readOnly_hear fun answer => ?_
  cases answer with
  | error e => exact readOnly_pure _
  | ok resp =>
    refine readOnly_ite (fun _ => readOnly_pure _) fun _ => ?_
    split <;> exact readOnly_pure _

theorem readOnly_handleHfFiles (env : ApiEnv) (req : Request) :
    (handleHfFiles env req).ReadOnly := by
  refine readOnly_extract fun params => ?_
  refine readOnly_ite (fun _ => readOnly_pure _) fun _ => ?_
  refine .bind (readOnly_listFiles _) fun files => ?_
  cases files <;> exact readOnly_pure _

theorem readOnly_handleRebuildStatus : handleRebuildStatus.ReadOnly :=
  .bind (readOnly_read _) fun _ => readOnly_pure _

theorem readOnly_handleSessions (env : ApiEnv) : (handleSessions env).ReadOnly := by
  refine readOnly_ite (fun _ => ?_) fun _ => readOnly_pure _
  refine .bind (readOnly_listSessions env 20) fun listed => ?_
  cases listed <;> exact readOnly_pure _

theorem readOnly_rollupSessions (env : ApiEnv) : (rollupSessions env).ReadOnly := by
  refine readOnly_ite (fun _ => ?_) fun _ => readOnly_pure _
  refine .bind (readOnly_listSessions env 20) fun listed => ?_
  cases listed <;> exact readOnly_pure _

theorem readOnly_handleStatusRollup (env : ApiEnv) : (handleStatusRollup env).ReadOnly := by
  refine .bind (readOnly_read _) fun w => ?_
  refine .bind (readOnly_read _) fun models => ?_
  refine .bind (readOnly_list env models) fun listed => ?_
  refine .bind (readOnly_rollupSessions env) fun sessions => ?_
  refine .bind readOnly_pveReachable fun pve => ?_
  refine .bind readOnly_hear fun postgres => ?_
  refine .bind readOnly_hear fun stats => ?_
  refine .bind (readOnly_read _) fun download => ?_
  refine .bind (readOnly_read _) fun rebuild => ?_
  refine .bind (readOnly_read _) fun builds => ?_
  exact readOnly_pure _

/-! ## The database answers -/

theorem runs_migrate (s : AppState) : migrate.Runs s (.ok ()) (createTables s) := by
  refine .bind (runs_hear DbAnswer.done s) ?_
  refine .bind (runs_write createTables s) ?_
  exact runs_pure _ _

theorem runs_storeCall {c : StoreCall} {s : AppState} {d d' : Tables} (hs : s.tables = some d)
    (hd : committedBy c d = some d') :
    (storeCall c).Runs s (.ok ()) { s with tables := some d' } := by
  have htables : callTables c s.tables = some d' := by rw [hs, callTables, hd, Option.getD_some]
  have hfound : (s.tables.bind (committedBy c)).isSome = true := by
    rw [hs, Option.bind_some, hd, Option.isSome_some]
  refine .bind (runs_hear DbAnswer.done s) ?_
  apply Runs.access
  rw [if_pos hfound, htables]
  exact runs_pure _ _

theorem runs_query {α : Type} (f : Tables → α) {s : AppState} {d : Tables}
    (hs : s.tables = some d) : (query f).Runs s (.ok (f d)) s := by
  refine .bind (runs_hear (Except.ok ()) s) ?_
  refine .bind (runs_read AppState.tables s) ?_
  rw [hs]
  exact runs_pure _ _

theorem runs_recordFakeTurn {sessionId model : String} {s : AppState} {d d' : Tables} (now : ℚ)
    (hs : s.tables = some d)
    (hd : committedBy (.recordTurn (.fake sessionId model) now) d = some d') :
    (recordFakeTurn sessionId model).Runs s (.ok (d'.turnsOf sessionId).length)
      { s with tables := some d' } := by
  refine .bind (runs_hear now s) ?_
  refine .bind (runs_storeCall hs hd) ?_
  exact runs_query _ rfl

/-! ## The handlers that act -/

/-- A step of the supervisor on behalf of a request; one that is refused changes nothing. -/
def supervise (env : ApiEnv) (a : Act) (s : AppState) : AppState :=
  { s with sup := ((step env.cfg s.sup a).map Prod.fst).getD s.sup }

/-- `Supervisor::start_model`. -/
def startModel (env : ApiEnv) (m : Model) : ApiTask (Except String Unit) := do
  write (supervise env (.callStart m))
  hear _

/-- `Supervisor::stop`. -/
def stop (env : ApiEnv) : ApiTask (Except String Unit) := do
  write (supervise env .callStop)
  hear _

/-- `handle_model_start`. -/
def handleModelStart (env : ApiEnv) (id : List UInt8) : ApiTask Reply :=
  extract (env.pathText id) fun id => do
    match ← read fun s => s.download.rest.models.find? fun m => m.id == id with
    | none => pure (.json 404 (errorJson (String.join ["model '", id, "' not found"])))
    | some model =>
      match ← startModel env model with
      | .ok () => pure (.json 200 (.obj [("ok", .bool true), ("model", .str model.id)]))
      | .error e => pure (.json 502 (errorJson e))

/-- `handle_model_stop`. -/
def handleModelStop (env : ApiEnv) : ApiTask Reply := do
  match ← stop env with
  | .ok () => pure (.json 200 (.obj [("ok", .bool true)]))
  | .error e => pure (.json 502 (errorJson e))

/-- A call of `start` of a job manager joins its table. -/
def joinStarts {J P R Q E : Type} (p : JobProgram J P R Q E) (req : Q) (m : JobManager J P R) :
    JobManager J P R := ((p.step m (.call req)).map Prod.fst).getD m

/-- `handle_hf_download`. -/
def handleHfDownload (env : ApiEnv) (req : Request) : ApiTask Reply :=
  extract (env.hfBody req) fun body => do
    write fun s =>
      { s with download := joinStarts (downloadProgram env.hf env.unicode) body s.download }
    match ← hear (Except String Unit) with
    | .ok () => pure (.json 200 (.obj [("ok", .bool true), ("repo", .str body.repo)]))
    | .error e => pure (.json 409 (errorJson e))

/-- `handle_rebuild_start`. -/
def handleRebuildStart : ApiTask Reply := do
  write fun s => { s with rebuild := joinStarts rebuildProgram () s.rebuild }
  match ← hear (Except String Unit) with
  | .ok () => pure (.json 200 (.obj [("ok", .bool true)]))
  | .error e => pure (.json 409 (errorJson e))

/-- `handle_session_active`. -/
def handleSessionActive (env : ApiEnv) (req : Request) : ApiTask Reply :=
  extract (env.jsonBody req) fun body => do
    write fun s => { s with activeSession := sessionHint body }
    pure (.json 200 (.obj [("ok", .bool true)]))

/-- `handle_db`. -/
def handleDb : ApiTask Reply := do
  match ← connect with
  | .error e => unavailable e
  | .ok () =>
    match ← migrate with
    | .error e => unavailable e
    | .ok () =>
      match ← ping with
      | .ok () => pure (.json 200 (.obj [("postgres_reachable", .bool true)]))
      | .error e => unavailable e
where
  unavailable (e : String) : ApiTask Reply :=
    pure (.json 503 (.obj [("postgres_reachable", .bool false), ("error", .str e)]))

/-- `handle_session_test`. -/
def handleSessionTest : ApiTask Reply := do
  match ← connect with
  | .error e => pure (.json 502 (errorJson e))
  | .ok () =>
    match ← migrate with
    | .error e => pure (.json 502 (errorJson e))
    | .ok () =>
      match ← recordFakeTurn "m3-test-session" "lfm2.5-8b" with
      | .ok n =>
        pure (.json 200 (.obj [("session", .str "m3-test-session"), ("turns", .int n)]))
      | .error e => pure (.json 502 (errorJson e))

/-- The handler of `/api/db` creates the tables. -/
theorem runs_handleDb (s : AppState) :
    handleDb.Runs s (.json 200 (.obj [("postgres_reachable", .bool true)])) (createTables s) := by
  refine .bind (runs_hear (Except.ok ()) s) ?_
  refine .bind (runs_migrate s) ?_
  refine .bind (runs_hear (Except.ok ()) _) ?_
  exact runs_pure _ _

/-- The turn of `/api/session-test` is stored. -/
theorem runs_handleSessionTest {s : AppState} {d d' : Tables} (now : ℚ)
    (hs : s.tables = some d)
    (hd : committedBy (.recordTurn (.fake "m3-test-session" "lfm2.5-8b") now) d = some d') :
    handleSessionTest.Runs s (.json 200 (.obj [("session", .str "m3-test-session"),
      ("turns", .int (d'.turnsOf "m3-test-session").length)])) { s with tables := some d' } := by
  have hsame : createTables s = s := by
    rw [createTables, hs, Option.getD_some, ← hs]
  refine .bind (runs_hear (Except.ok ()) s) ?_
  refine .bind (runs_migrate s) ?_
  rw [hsame]
  refine .bind (runs_recordFakeTurn now hs hd) ?_
  exact runs_pure _ _

end Api

end LlmCtl
