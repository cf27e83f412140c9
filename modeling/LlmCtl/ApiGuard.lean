/-
# The guard of the API (`main.rs`)

`require_ctl_header` turns away every POST to a route of the API without the header
`X-LLM-CTL: 1`, and lets every other method pass.  So what an unguarded request can change is
what the handlers of GET change, and what `fallback` does with a path that no route matches.

Two of the handlers of GET write to the database, and a POST under `/api` whose path ends like
that of a completion is one.
-/
import LlmCtl.ProxyTasks

namespace LlmCtl

namespace Api

open Resumption

/-! ## Routes -/

/-- A segment of a route: a text, or a parameter such as `:id`. -/
inductive Segment where
  | text (t : String)
  | param

/-- `b'/'`. -/
def slash : UInt8 := 47

/-- The parameters of a path that fits the segments; no parameter is empty. -/
def matchPath : List Segment → List UInt8 → Option (List (List UInt8))
  | [], path => if path = [] then some [] else none
  | .text t :: rest, path => (path.dropPrefix? (slash :: asciiBytes t)).bind (matchPath rest)
  | .param :: rest, path =>
    match path with
    | [] => none
    | b :: path =>
      let value := path.takeWhile fun c => c != slash
      if b = slash ∧ value ≠ [] then
        (matchPath rest (path.drop value.length)).map fun values => value :: values
      else none

/-- The routes of the API. -/
inductive Endpoint where
  | health
  | pve
  | db
  | sessionTest
  | sessions
  | models
  | modelStart
  | modelStop
  | hfDownload
  | hfFiles
  | rebuild
  | statusRollup
  | sessionActive
  deriving DecidableEq, Repr

/-- The path of a route, below `/api`. -/
def Endpoint.path : Endpoint → List Segment
  | .health => [.text "health"]
  | .pve => [.text "pve"]
  | .db => [.text "db"]
  | .sessionTest => [.text "session-test"]
  | .sessions => [.text "sessions"]
  | .models => [.text "models"]
  | .modelStart => [.text "models", .param, .text "start"]
  | .modelStop => [.text "models", .text "stop"]
  | .hfDownload => [.text "hf", .text "download"]
  | .hfFiles => [.text "hf", .text "files"]
  | .rebuild => [.text "rebuild"]
  | .statusRollup => [.text "status-rollup"]
  | .sessionActive => [.text "session-active"]

/-- The handler of GET, which answers HEAD, too. -/
def Endpoint.get (env : ApiEnv) (req : Request) : Endpoint → Option (ApiTask Reply)
  | .health => some (Api.health env)
  | .pve => some handlePve
  | .db => some handleDb
  | .sessionTest => some handleSessionTest
  | .sessions => some (handleSessions env)
  | .models => some (handleModels env)
  | .hfDownload => some handleHfStatus
  | .hfFiles => some (handleHfFiles env req)
  | .rebuild => some handleRebuildStatus
  | .statusRollup => some (handleStatusRollup env)
  | .modelStart | .modelStop | .sessionActive => none

/-- The handler of POST, given the parameters of the path. -/
def Endpoint.post (env : ApiEnv) (req : Request) (params : List (List UInt8)) :
    Endpoint → Option (ApiTask Reply)
  | .modelStart => some (handleModelStart env (params.headD []))
  | .modelStop => some (handleModelStop env)
  | .hfDownload => some (handleHfDownload env req)
  | .rebuild => some handleRebuildStart
  | .sessionActive => some (handleSessionActive env req)
  | .health | .pve | .db | .sessionTest | .sessions | .models | .hfFiles | .statusRollup => none

/-- The handler for the method of the request. -/
def Endpoint.call (env : ApiEnv) (req : Request) (params : List (List UInt8)) (e : Endpoint) :
    ApiTask Reply :=
  match req.method with
  | .get | .head => (e.get env req).getD (pure (.rejected 405 ""))
  | .post => (e.post env req params).getD (pure (.rejected 405 ""))
  | _ => pure (.rejected 405 "")

/-- The router of the API; no path fits two routes. -/
def routes : List Endpoint :=
  [.health, .pve, .db, .sessionTest, .sessions, .models, .modelStart, .modelStop, .hfDownload,
    .hfFiles, .rebuild, .statusRollup, .sessionActive]

/-- The route of a path, with its parameters. -/
def apiRoute (path : List UInt8) : Option (Endpoint × List (List UInt8)) :=
  routes.findSome? fun e => (matchPath (.text "api" :: e.path) path).map fun params => (e, params)

example : apiRoute (asciiBytes "/api/models/a/start") = some (.modelStart, [asciiBytes "a"]) := by
  decide

/-! ## The application -/

/-- `require_ctl_header`. -/
def requireCtlHeader (req : Request) (next : ApiTask Reply) : ApiTask Reply :=
  if req.method = .post then
    if (req.headers.get "x-llm-ctl").bind valueText = some "1" then next
    else pure (.json 403 (errorJson "missing X-LLM-CTL header"))
  else next

/-- Is the path at or below `lead`? -/
def under (lead : String) (path : List UInt8) : Bool :=
  path = asciiBytes lead || (asciiBytes lead ++ [slash]).isPrefixOf path

/-- `ServeFile` and `ServeDir`. -/
def serveFile : ApiTask Reply := do return .file (← hear Response)

/-- `app`: the routes of the API behind their guard, the files of the panel, and the fallback. -/
def app (env : ApiEnv) (req : Request) : ApiTask Reply :=
  match apiRoute req.path with
  | some (e, params) => requireCtlHeader req (e.call env req params)
  | none =>
    if req.path = asciiBytes "/" || under "/assets" req.path then serveFile
    else handleFallback env req

/-! ## The property and its condition -/

/-- Does the request carry `X-LLM-CTL: 1`? -/
def CarriesHeader (req : Request) : Prop := asciiBytes "1" ∈ req.headers.getAll "x-llm-ctl"

/-- The handler of GET, or of HEAD, writes to the database. -/
def WritesOnGet (req : Request) : Prop :=
  (req.method = .get ∨ req.method = .head) ∧
    (req.path = asciiBytes "/api/db" ∨ req.path = asciiBytes "/api/session-test")

/-- A completion below `/api`: no route matches, and the fallback takes it. -/
def StrayCompletion (env : ApiEnv) (req : Request) : Prop :=
  req.method = .post ∧ apiRoute req.path = none ∧ isCompletionPath req.path = true ∧
    ∃ body, bodyOf env.parse req.body = .json body

/-- **The guard lets the request through to something that writes.** -/
def SlipsThrough (env : ApiEnv) (req : Request) : Prop :=
  WritesOnGet req ∨ StrayCompletion env req

/-! ## The route of a path -/

/-- A route without a parameter fits its own path only. -/
theorem matchPath_text {ts : List String} {path : List UInt8} {values : List (List UInt8)}
    (h : matchPath (ts.map .text) path = some values) :
    path = ts.flatMap fun t => slash :: asciiBytes t := by
  induction ts generalizing path with
  | nil =>
    simp only [List.map_nil, matchPath] at h
    split at h
    · next hnil => exact hnil
    · exact absurd h (by simp)
  | cons t ts ih =>
    obtain ⟨rest, hdrop, hrest⟩ := Option.bind_eq_some_iff.mp h
    obtain ⟨lead, rfl, hlead⟩ := List.dropPrefix?_eq_some_iff.mp hdrop
    rw [eq_of_beq hlead, List.flatMap_cons, ih hrest]

/-- The route that is found fits the path. -/
theorem apiRoute_eq {path : List UInt8} {e : Endpoint} {params : List (List UInt8)}
    (h : apiRoute path = some (e, params)) :
    matchPath (.text "api" :: e.path) path = some params := by
  obtain ⟨e', -, he⟩ := List.exists_of_findSome?_eq_some h
  obtain ⟨values, hvalues, heq⟩ := Option.map_eq_some_iff.mp he
  obtain ⟨rfl, rfl⟩ := Prod.mk.inj heq
  exact hvalues

theorem path_of_db {path : List UInt8} {params : List (List UInt8)}
    (h : apiRoute path = some (.db, params)) : path = asciiBytes "/api/db" := by
  have hpath : path = ["api", "db"].flatMap fun t => slash :: asciiBytes t :=
    matchPath_text (apiRoute_eq h)
  exact hpath.trans (by decide)

theorem path_of_sessionTest {path : List UInt8} {params : List (List UInt8)}
    (h : apiRoute path = some (.sessionTest, params)) : path = asciiBytes "/api/session-test" := by
  have hpath : path = ["api", "session-test"].flatMap fun t => slash :: asciiBytes t :=
    matchPath_text (apiRoute_eq h)
  exact hpath.trans (by decide)

theorem lead_of_under {lead : String} {path : List UInt8} (h : under lead path = true) :
    asciiBytes lead <+: path := by
  rcases (Bool.or_eq_true _ _).mp h with heq | hbelow
  · rw [of_decide_eq_true heq]
  · exact (List.prefix_append _ _).trans (List.isPrefixOf_iff_prefix.mp hbelow)

/-- A path below `/api` is neither that of the panel nor that of its files. -/
theorem not_panel_of_api {path : List UInt8} (h : under "/api" path = true) :
    ¬ (path = asciiBytes "/" ∨ under "/assets" path = true) := by
  have hapi := lead_of_under h
  rintro (rfl | hassets)
  · exact absurd hapi (by decide)
  · have hboth : asciiBytes "/api" <+: asciiBytes "/assets" :=
      List.prefix_of_prefix_length_le hapi (lead_of_under hassets) (by decide)
    exact absurd hboth (by decide)

/-! ## The guard -/

/-- `to_str` gives the text of a value back: only `1` reads as `1`. -/
theorem eq_of_valueText {value : List UInt8} (h : valueText value = some "1") :
    value = asciiBytes "1" := by
  have htext : "1" = String.ofList (value.map fun b => Char.ofNat b.toNat) := headerText_eq h
  have hchars : value.map (fun b => Char.ofNat b.toNat) = ['1'] := by
    rw [← String.toList_ofList (l := value.map _), ← htext]
    rfl
  obtain ⟨b, rfl, hb⟩ := List.map_eq_singleton_iff.mp hchars
  have hone : ∀ n < 256, Char.ofNat n = '1' → n = 49 := by decide +kernel
  have hbyte : b = 49 := UInt8.toNat_inj.mp (hone b.toNat b.toNat_lt hb)
  rw [hbyte]
  rfl

/-- **Without the header a POST goes no further.** -/
theorem requireCtlHeader_post {req : Request} (hpost : req.method = .post)
    (hno : ¬ CarriesHeader req) (next : ApiTask Reply) :
    requireCtlHeader req next = pure (.json 403 (errorJson "missing X-LLM-CTL header")) := by
  rw [requireCtlHeader, if_pos hpost, if_neg]
  intro hone
  obtain ⟨value, hvalue, htext⟩ := Option.bind_eq_some_iff.mp hone
  obtain rfl := eq_of_valueText htext
  exact hno (List.mem_of_mem_head? hvalue)

/-- Every other method passes. -/
theorem requireCtlHeader_of_ne_post {req : Request} (hpost : req.method ≠ .post)
    (next : ApiTask Reply) : requireCtlHeader req next = next := if_neg hpost

/-! ## What the guard covers -/

/-- The handlers of GET only look, but for two of them. -/
theorem readOnly_get {env : ApiEnv} {req : Request} {e : Endpoint} {h : ApiTask Reply}
    (hget : e.get env req = some h) (hdb : e ≠ .db) (htest : e ≠ .sessionTest) : h.ReadOnly := by
  cases e with
  | db => exact absurd rfl hdb
  | sessionTest => exact absurd rfl htest
  | health =>
    obtain rfl := Option.some.inj hget
    exact readOnly_health env
  | pve =>
    obtain rfl := Option.some.inj hget
    exact readOnly_handlePve
  | sessions =>
    obtain rfl := Option.some.inj hget
    exact readOnly_handleSessions env
  | models =>
    obtain rfl := Option.some.inj hget
    exact readOnly_handleModels env
  | hfDownload =>
    obtain rfl := Option.some.inj hget
    exact readOnly_handleHfStatus
  | hfFiles =>
    obtain rfl := Option.some.inj hget
    exact readOnly_handleHfFiles env req
  | rebuild =>
    obtain rfl := Option.some.inj hget
    exact readOnly_handleRebuildStatus
  | statusRollup =>
    obtain rfl := Option.some.inj hget
    exact readOnly_handleStatusRollup env
  | modelStart | modelStop | sessionActive => exact absurd hget (by simp [Endpoint.get])

/-- A request to a route that is not a POST only looks, but for two paths. -/
theorem readOnly_call {env : ApiEnv} {req : Request} {e : Endpoint} {params : List (List UInt8)}
    (hroute : apiRoute req.path = some (e, params)) (hpost : req.method ≠ .post)
    (hget : ¬ WritesOnGet req) : (e.call env req params).ReadOnly := by
  have hlooks : req.method = .get ∨ req.method = .head →
      ((e.get env req).getD (pure (.rejected 405 ""))).ReadOnly := by
    intro hmethod
    cases hh : e.get env req with
    | none => exact readOnly_pure _
    | some h =>
      refine readOnly_get hh ?_ ?_
      · rintro rfl
        exact hget ⟨hmethod, .inl (path_of_db hroute)⟩
      · rintro rfl
        exact hget ⟨hmethod, .inr (path_of_sessionTest hroute)⟩
  unfold Endpoint.call
  split
  · next hmethod => exact hlooks (.inl hmethod)
  · next hmethod => exact hlooks (.inr hmethod)
  · next hmethod => exact absurd hmethod hpost
  · exact readOnly_pure _

/-- The fallback only looks, but for a completion with a JSON body. -/
theorem readOnly_handleFallback {env : ApiEnv} {req : Request}
    (hroute : apiRoute req.path = none) (hstray : ¬ StrayCompletion env req) :
    (handleFallback env req).ReadOnly := by
  unfold handleFallback
  split
  · exact readOnly_pure _
  · next hcompletion =>
    unfold handleCompletion
    split
    · exact readOnly_pure _
    · exact readOnly_pure _
    · next body hbody =>
      obtain ⟨hpost, hpath⟩ := fallback_eq_completion_iff.mp hcompletion
      exact absurd ⟨hpost, hroute, hpath, body, hbody⟩ hstray
  · exact readOnly_forward env req

/-- **An unguarded request only looks**, unless it slips through. -/
theorem readOnly_app {env : ApiEnv} {req : Request} (hapi : under "/api" req.path = true)
    (hno : ¬ CarriesHeader req) (hslip : ¬ SlipsThrough env req) : (app env req).ReadOnly := by
  obtain ⟨hget, hstray⟩ := not_or.mp hslip
  unfold app
  split
  · next e params hroute =>
    by_cases hpost : req.method = .post
    · rw [requireCtlHeader_post hpost hno]
      exact readOnly_pure _
    · rw [requireCtlHeader_of_ne_post hpost]
      exact readOnly_call hroute hpost hget
  · next hroute =>
    refine readOnly_ite (fun hpanel => ?_) fun _ => readOnly_handleFallback hroute hstray
    rw [Bool.or_eq_true, decide_eq_true_iff] at hpanel
    exact absurd hpanel (not_panel_of_api hapi)

/-! ## What slips through -/

/-- A daemon with a model loaded and a completion in flight. -/
def servingState (model : String) (tables : Option Tables) : AppState where
  sup := { Sup.init none with st := { WorkerState.new with modelId := some model } }
  busy := true
  activeSession := none
  tables := tables
  download := newDownloads
  rebuild := newRebuilds

/-- The guard and the router hand a request that is not a POST to its handler. -/
theorem app_eq_get {env : ApiEnv} {req : Request} {e : Endpoint} {params : List (List UInt8)}
    {h : ApiTask Reply} (hroute : apiRoute req.path = some (e, params))
    (hmethod : req.method = .get ∨ req.method = .head) (hget : e.get env req = some h) :
    app env req = h := by
  have hpost : req.method ≠ .post := by
    rcases hmethod with hm | hm <;> rw [hm] <;> decide
  have hcall : e.call env req params = h := by
    unfold Endpoint.call
    rcases hmethod with hm | hm <;> rw [hm, hget] <;> rfl
  simp only [app, hroute]
  rw [requireCtlHeader_of_ne_post hpost, hcall]

/-- A stray completion is handled as a completion. -/
theorem app_eq_completion {env : ApiEnv} {req : Request} (hapi : under "/api" req.path = true)
    (h : StrayCompletion env req) : app env req = handleCompletion env req := by
  obtain ⟨hpost, hroute, hpath, -⟩ := h
  have hpanel : ¬ ((decide (req.path = asciiBytes "/") || under "/assets" req.path) = true) := by
    rw [Bool.or_eq_true, decide_eq_true_iff]
    exact not_panel_of_api hapi
  simp only [app, hroute]
  rw [if_neg hpanel, handleFallback, fallback_eq_completion_iff.mpr ⟨hpost, hpath⟩]

/-- The turn of `/api/session-test` fits empty tables. -/
theorem sessionTest_commits : ∃ d, committedBy
    (.recordTurn (.fake "m3-test-session" "lfm2.5-8b") 1) .empty = some d ∧ d.turns.length = 1 := by
  have hd : (committedBy (.recordTurn (.fake "m3-test-session" "lfm2.5-8b") 1) .empty).any
      (fun d => decide (d.turns.length = 1)) = true := by decide
  obtain ⟨d, hd, hlen⟩ := (Option.any_eq_true _ _).mp hd
  exact ⟨d, hd, of_decide_eq_true hlen⟩

/-- **What slips through changes some daemon**, even when nothing else happens. -/
theorem app_changes {env : ApiEnv} {req : Request} (hapi : under "/api" req.path = true)
    (hslip : SlipsThrough env req) : ∃ s r s', (app env req).Runs s r s' ∧ s' ≠ s := by
  rcases hslip with ⟨hmethod, hdb | htest⟩ | hstray
  · -- `/api/db`, when there are no tables yet
    have hroute : apiRoute req.path = some (.db, []) := by
      rw [hdb]
      decide
    rw [app_eq_get hroute hmethod rfl]
    refine ⟨servingState "a" none, _, _, runs_handleDb _, fun heq => ?_⟩
    exact absurd (congrArg AppState.tables heq) (by simp [createTables, servingState])
  · -- `/api/session-test`
    have hroute : apiRoute req.path = some (.sessionTest, []) := by
      rw [htest]
      decide
    obtain ⟨d, hd, hlen⟩ := sessionTest_commits
    rw [app_eq_get hroute hmethod rfl]
    refine ⟨servingState "a" (some .empty), _, _, runs_handleSessionTest 1 rfl hd, fun heq => ?_⟩
    have hempty : d = .empty := Option.some.inj (congrArg AppState.tables heq)
    rw [hempty] at hlen
    exact absurd hlen (by decide)
  · -- a completion, for the model that it names
    obtain ⟨-, -, -, body, hbody⟩ := id hstray
    have hgate : modelGate (some (reqModel body)) (reqModel body) = .ok (reqModel body) := by
      simp [modelGate]
    rw [app_eq_completion hapi hstray]
    refine ⟨servingState (reqModel body) none, _, _, runs_handleCompletion hbody hgate rfl,
      fun heq => ?_⟩
    have hmarked := congrArg (fun s : AppState => s.sup.st.lastRequestAt) heq
    exact absurd hmarked (by simp [onWorker, servingState, WorkerState.new])

/-! ## Results -/

/-- **A request without the header leaves the daemon as it is** just if it does not slip through:
in every execution, whatever the other tasks do in the meantime, and in every execution by
itself. -/
theorem unguarded_unchanged_iff {env : ApiEnv} {req : Request}
    (hapi : under "/api" req.path = true) (hno : ¬ CarriesHeader req) :
    ((app env req).ReadOnly ↔ ¬ SlipsThrough env req) ∧
      ((∀ s r s', (app env req).Runs s r s' → s' = s) ↔ ¬ SlipsThrough env req) := by
  have halone : (∀ s r s', (app env req).Runs s r s' → s' = s) → ¬ SlipsThrough env req := by
    intro hsame hslip
    obtain ⟨s, r, s', hrun, hne⟩ := app_changes hapi hslip
    exact hne (hsame s r s' hrun)
  constructor
  · constructor
    · intro hread
      exact halone fun s r s' hrun => hread.runs_eq hrun
    · exact readOnly_app hapi hno
  · constructor
    · exact halone
    · intro hslip s r s' hrun
      exact (readOnly_app hapi hno hslip).runs_eq hrun

/-- A GET without headers or a body. -/
def bareGet (path : String) (h : questionMark ∉ asciiBytes path) : Request where
  method := .get
  path := asciiBytes path
  query := none
  headers := .empty
  body := []
  path_plain := h

/-- Libraries that find nothing. -/
def bareEnv : ApiEnv where
  cfg := { worker := { port := 8081 }, binary := "llama-server", overflowChecks := false }
  hf := plainHf
  unicode := asciiOnly
  store := true
  llamaInfo := .null
  parse := fun _ => .error "EOF while parsing a value"
  parseText := fun _ => none
  jsonBody := fun _ => .error (.rejected 415 "")
  hfBody := fun _ => .error (.rejected 415 "")
  pathText := fun _ => .error (.rejected 400 "")
  queryMap := fun _ => .ok []
  printable := fun _ => true

theorem unguarded_unchanged_iff_health :
    (app bareEnv (bareGet "/api/health" (by decide))).ReadOnly := by
  refine (unguarded_unchanged_iff (by decide) ?_).1.mpr ?_
  · exact List.not_mem_nil
  · rintro (⟨-, hpath⟩ | ⟨hpost, -⟩)
    · revert hpath
      decide
    · exact absurd hpost (by decide)

/-- **`GET /api/session-test` stores a turn.** -/
theorem session_test_changes_tables :
    ¬ ∀ (env : ApiEnv) (req : Request), under "/api" req.path = true → ¬ CarriesHeader req →
      ∀ s r s', (app env req).Runs s r s' → s' = s := by
  intro hall
  have hplain : questionMark ∉ asciiBytes "/api/session-test" := by decide
  obtain ⟨d, hd, hlen⟩ := sessionTest_commits
  have hroute : apiRoute (asciiBytes "/api/session-test") = some (.sessionTest, []) := by
    decide
  have happ : app bareEnv (bareGet "/api/session-test" hplain) = handleSessionTest :=
    app_eq_get hroute (.inl rfl) rfl
  have hrun := runs_handleSessionTest (s := servingState "a" (some .empty)) 1 rfl hd
  rw [← happ] at hrun
  have hapi : under "/api" (asciiBytes "/api/session-test") = true := by decide
  have hsame := hall _ _ hapi List.not_mem_nil _ _ _ hrun
  have hempty : d = .empty := Option.some.inj (congrArg AppState.tables hsame)
  rw [hempty] at hlen
  exact absurd hlen (by decide)

end Api

end LlmCtl
