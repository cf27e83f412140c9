/-
# What the panel is given (`main.rs`)

The panel reads two replies of the daemon: the status of the daemon, and the files of a repository.
Each has a shape, which says where texts, numbers, flags and lists are.  Whatever the state of the
daemon is and whatever the network says, a reply that is a success has the shape.
-/
import LlmCtl.ApiHandlers
import LlmCtl.JsonShape

namespace LlmCtl

namespace Panel

/-! ## Shapes -/

/-- What `Supervisor::list` says about a model. -/
def modelShape : JsonShape :=
  .record [("id", .text), ("model", .text), ("autostart", .flag), ("description", .text),
    ("active", .flag), ("status", .text)]

/-- What `list_sessions` says about a session. -/
def sessionShape : JsonShape :=
  .record [("id", .text), ("model", .orNull .text), ("requests", .number),
    ("prompt_tokens", .number), ("completion_tokens", .number), ("cache_tokens", .number),
    ("cache_hit_pct", .orNull .number), ("prompt_ms", .orNull .number),
    ("completion_ms", .orNull .number)]

/-- `Job` of `download.rs`. -/
def downloadShape : JsonShape :=
  .record [("status", .text), ("repo", .orNull .text), ("include", .orNull .text),
    ("started_at", .orNull .number), ("finished_at", .orNull .number), ("error", .orNull .text),
    ("registered", .orNull .text), ("log", .list .text)]

/-- `Job` of `rebuild.rs`. -/
def rebuildShape : JsonShape :=
  .record [("status", .text), ("started_at", .orNull .number), ("finished_at", .orNull .number),
    ("before_sha", .orNull .text), ("after_sha", .orNull .text), ("error", .orNull .text),
    ("log", .list .text)]

/-- `BuildRecord`. -/
def buildShape : JsonShape :=
  .record [("at", .orNull .number), ("before_sha", .orNull .text), ("after_sha", .orNull .text),
    ("ok", .flag)]

/-- What `llama_build_info` gives. -/
def llamaShape : JsonShape := .record [("commit", .text), ("branch", .text), ("binary", .text)]

/-- What `handle_status_rollup` says about the worker. -/
def workerShape : JsonShape :=
  .record [("model", .orNull .text), ("pid", .orNull .number), ("status", .text),
    ("last_request_at", .orNull .number), ("last_turn", .any), ("slots", .any),
    ("metrics", .any)]

/-- What `handle_status_rollup` says about the other tiers. -/
def crossShape : JsonShape := .record [("pve", .flag), ("postgres", .flag)]

/-- **The payload of the status.** -/
def statusShape : JsonShape :=
  .record [("worker", workerShape), ("models", .list modelShape),
    ("sessions", .list sessionShape), ("download", downloadShape), ("rebuild", rebuildShape),
    ("llama", llamaShape), ("builds", .list buildShape), ("stats", .any),
    ("cross_tier", crossShape)]

/-- What `handle_hf_files` says about a file. -/
def fileShape : JsonShape := .record [("path", .text), ("size_mb", .orNull .number)]

/-- **The payload of the files of a repository.** -/
def filesShape : JsonShape := .record [("repo", .text), ("files", .list fileShape)]

/-! ## What the daemon replies -/

section Replies

open Api Resumption

theorem fits_str (t : String) : JsonShape.text.Fits (.str t) := ⟨t, rfl⟩

theorem fits_int (n : ℤ) : JsonShape.number.Fits (.int n) := .inl ⟨n, rfl⟩

theorem fits_float (q : ℚ) : JsonShape.number.Fits (.float q) := .inr ⟨q, rfl⟩

theorem fits_bool (b : Bool) : JsonShape.flag.Fits (.bool b) := ⟨b, rfl⟩

theorem fits_textOrNull (x : Option String) : (JsonShape.orNull .text).Fits (nullOr .str x) :=
  JsonShape.fits_orNull fits_str x

theorem fits_numberOrNull (x : Option ℚ) : (JsonShape.orNull .number).Fits (nullOr .float x) :=
  JsonShape.fits_orNull fits_float x

theorem modelJson_fits (printable : Char → Bool) (st : WorkerState) (m : Model) :
    modelShape.Fits (modelJson printable st m) :=
  JsonShape.fits_obj (by decide) <|
    .cons ⟨rfl, fits_str _⟩ <| .cons ⟨rfl, fits_str _⟩ <| .cons ⟨rfl, fits_bool _⟩ <|
    .cons ⟨rfl, fits_str _⟩ <| .cons ⟨rfl, fits_bool _⟩ <| .cons ⟨rfl, fits_str _⟩ .nil

theorem sessionReport_fits {checks : Bool} {s : SessionRow} {v : Json}
    (h : sessionReport checks s = some v) : sessionShape.Fits v := by
  obtain ⟨pct, -, rfl⟩ := Option.map_eq_some_iff.mp h
  exact JsonShape.fits_obj (by decide) <|
    .cons ⟨rfl, fits_str _⟩ <| .cons ⟨rfl, fits_textOrNull _⟩ <| .cons ⟨rfl, fits_int _⟩ <|
    .cons ⟨rfl, fits_int _⟩ <| .cons ⟨rfl, fits_int _⟩ <| .cons ⟨rfl, fits_int _⟩ <|
    .cons ⟨rfl, .inr (fits_float _)⟩ <| .cons ⟨rfl, .inr (fits_float _)⟩ <|
    .cons ⟨rfl, .inr (fits_float _)⟩ .nil

theorem downloadJson_fits (j : DownloadJob) : downloadShape.Fits (downloadJson j) :=
  JsonShape.fits_obj (by decide) <|
    .cons ⟨rfl, fits_str _⟩ <| .cons ⟨rfl, fits_textOrNull _⟩ <|
    .cons ⟨rfl, fits_textOrNull _⟩ <| .cons ⟨rfl, fits_numberOrNull _⟩ <|
    .cons ⟨rfl, fits_numberOrNull _⟩ <| .cons ⟨rfl, fits_textOrNull _⟩ <|
    .cons ⟨rfl, fits_textOrNull _⟩ <| .cons ⟨rfl, JsonShape.fits_list fits_str _⟩ .nil

theorem rebuildJson_fits (j : RebuildJob) : rebuildShape.Fits (rebuildJson j) :=
  JsonShape.fits_obj (by decide) <|
    .cons ⟨rfl, fits_str _⟩ <| .cons ⟨rfl, fits_numberOrNull _⟩ <|
    .cons ⟨rfl, fits_numberOrNull _⟩ <| .cons ⟨rfl, fits_textOrNull _⟩ <|
    .cons ⟨rfl, fits_textOrNull _⟩ <| .cons ⟨rfl, fits_textOrNull _⟩ <|
    .cons ⟨rfl, JsonShape.fits_list fits_str _⟩ .nil

theorem buildJson_fits (r : BuildRecord) : buildShape.Fits (buildJson r) :=
  JsonShape.fits_obj (by decide) <|
    .cons ⟨rfl, .inr (fits_float _)⟩ <| .cons ⟨rfl, fits_textOrNull _⟩ <|
    .cons ⟨rfl, fits_textOrNull _⟩ <| .cons ⟨rfl, fits_bool _⟩ .nil

theorem fileJson_fits (file : String × ℕ) : fileShape.Fits (fileJson file) :=
  JsonShape.fits_obj (by decide) <|
    .cons ⟨rfl, fits_str _⟩ <| .cons ⟨rfl, .inr (fits_float _)⟩ .nil

/-- `llama_build_info`; each command of git may fail. -/
def llamaBuildInfo (commit branch : Option String) (binary : String) : Json :=
  .obj [("commit", .str (commit.getD "unknown")),
    ("branch", .str ((branch.filter fun b => b != "").getD "detached")), ("binary", .str binary)]

theorem llamaBuildInfo_fits (commit branch : Option String) (binary : String) :
    llamaShape.Fits (llamaBuildInfo commit branch binary) :=
  JsonShape.fits_obj (by decide) <|
    .cons ⟨rfl, fits_str _⟩ <| .cons ⟨rfl, fits_str _⟩ <| .cons ⟨rfl, fits_str _⟩ .nil

/-- The rows of a `SELECT` come from some tables. -/
theorem ensures_query {α : Type} (f : Tables → α) :
    (query f).Ensures fun answer => ∀ a, answer = .ok a → ∃ d, a = f d := by
  refine ensures_bind fun answer => ?_
  cases answer with
  | error e => exact ensures_pure nofun
  | ok _ =>
    refine ensures_bind fun tables => ?_
    cases tables with
    | none => exact ensures_bind fun e => ensures_pure nofun
    | some d => exact ensures_pure fun a h => ⟨d, (Except.ok.inj h).symm⟩

/-- **The sessions in the status have their shape.** -/
theorem ensures_rollupSessions (env : ApiEnv) :
    (rollupSessions env).Ensures fun vs => ∀ v ∈ vs, sessionShape.Fits v := by
  have hlisted : (Api.listSessions env 20).Ensures fun answer =>
      ∀ vs, answer = .ok vs → ∀ v ∈ vs, sessionShape.Fits v := by
    refine (ensures_query _).bind fun answer h => ?_
    cases answer with
    | error e => exact ensures_pure nofun
    | ok sessions =>
      cases sessions with
      | none => trivial
      | some vs =>
        obtain ⟨d, hd⟩ := h _ rfl
        refine ensures_pure fun vs' heq v hv => ?_
        obtain rfl := Except.ok.inj heq
        obtain ⟨s, -, hs⟩ := sessionReport_of_mem_list hd.symm hv
        exact sessionReport_fits hs
  rw [rollupSessions]
  split
  · refine hlisted.bind fun answer h => ?_
    cases answer with
    | error e => exact ensures_pure fun v hv => absurd hv List.not_mem_nil
    | ok vs => exact ensures_pure (h vs rfl)
  · exact ensures_pure fun v hv => absurd hv List.not_mem_nil

/-- **The status has its shape**, whatever the sections meet and the environment says. -/
theorem statusRollup_fits (env : ApiEnv) {commit branch : Option String} {binary : String}
    (hllama : env.llamaInfo = llamaBuildInfo commit branch binary) :
    (handleStatusRollup env).Ensures fun reply =>
      ∃ body, reply = .json 200 body ∧ statusShape.Fits body := by
  rw [handleStatusRollup]
  refine ensures_bind fun w => ensures_bind fun models => ?_
  refine Ensures.bind (P := (JsonShape.list modelShape).Fits) ?_ fun listed hlisted => ?_
  · exact ensures_bind fun st =>
      ensures_pure (JsonShape.fits_list (modelJson_fits env.printable st) models)
  refine (ensures_rollupSessions env).bind fun sessions hsessions => ?_
  refine ensures_bind fun pve => ensures_bind fun postgres => ensures_bind fun stats => ?_
  refine ensures_bind fun download => ensures_bind fun rebuild => ensures_bind fun builds => ?_
  refine ensures_pure ⟨_, rfl, JsonShape.fits_obj (by decide) ?_⟩
  refine .cons ⟨rfl, JsonShape.fits_obj (by decide) ?_⟩ <| .cons ⟨rfl, hlisted⟩ <|
    .cons ⟨rfl, ⟨sessions, rfl, hsessions⟩⟩ <| .cons ⟨rfl, downloadJson_fits download⟩ <|
    .cons ⟨rfl, rebuildJson_fits rebuild⟩ <|
    .cons ⟨rfl, hllama ▸ llamaBuildInfo_fits commit branch binary⟩ <|
    .cons ⟨rfl, JsonShape.fits_list buildJson_fits builds⟩ <| .cons ⟨rfl, trivial⟩ <|
    .cons ⟨rfl, JsonShape.fits_obj (by decide) ?_⟩ .nil
  · exact .cons ⟨rfl, fits_textOrNull _⟩ <|
      .cons ⟨rfl, JsonShape.fits_orNull (fun n : ℕ => fits_int n) _⟩ <| .cons ⟨rfl, fits_str _⟩ <|
      .cons ⟨rfl, JsonShape.fits_orNull (fun ms : ℕ => fits_float _) _⟩ <| .cons ⟨rfl, trivial⟩ <|
      .cons ⟨rfl, trivial⟩ <| .cons ⟨rfl, trivial⟩ .nil
  · exact .cons ⟨rfl, fits_bool _⟩ <| .cons ⟨rfl, fits_bool _⟩ .nil

/-- **The files of a repository have their shape.**  The framework turns a query away with a text
of its own. -/
theorem hfFiles_fits (env : ApiEnv) (req : Request)
    (hquery : ∀ q r, env.queryMap q = .error r → ∃ status text, r = .rejected status text) :
    (handleHfFiles env req).Ensures fun reply =>
      ∀ body, reply = .json 200 body → filesShape.Fits body := by
  rw [handleHfFiles]
  cases hq : env.queryMap req.query with
  | error r =>
    obtain ⟨status, text, rfl⟩ := hquery _ _ hq
    exact ensures_pure nofun
  | ok params =>
    dsimp only [extract]
    split
    · exact ensures_pure fun _ h => absurd (Reply.json.inj h).1 (by decide)
    · refine ensures_bind fun answer => ?_
      cases answer with
      | error e => exact ensures_pure fun _ h => absurd (Reply.json.inj h).1 (by decide)
      | ok files =>
        refine ensures_pure fun body h => ?_
        obtain ⟨-, rfl⟩ := Reply.json.inj h
        exact JsonShape.fits_obj (by decide) <|
          .cons ⟨rfl, fits_str _⟩ <| .cons ⟨rfl, JsonShape.fits_list fileJson_fits files⟩ .nil

end Replies

end Panel

end LlmCtl
