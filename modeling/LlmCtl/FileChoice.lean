/-
# The chosen file (`app.js`, `main.rs`, `download.rs`)

The file that is chosen in the list of a repository is asked for by its name.  The request calls
`start` once, and whatever the other calls and tasks do, the job that this call claims is for that
repository and that file, as long as it is the job of the manager.
-/
import LlmCtl.FileList
import LlmCtl.Registration

namespace LlmCtl

open EventSystem ListTable Api Resumption

/-! ## The request -/

/-- `$("hf-files").value || $("hf-include").value.trim() || "*q4_k_m.gguf"`; the pattern is
trimmed. -/
def includeOf (chosen pattern : String) : String :=
  if chosen ≠ "" then chosen else if pattern ≠ "" then pattern else "*q4_k_m.gguf"

/-- What `hf-go` sends. -/
def downloadBody (repo included : String) : Json :=
  .obj [("repo", .str repo), ("include", .str included)]

/-- The request of `hf-go`. -/
structure Request.IsDownload (req : Request) (env : ApiEnv) (repo included : String) : Prop where
  post : req.method = .post
  path : req.path = asciiBytes "/api/hf/download"
  guard : req.headers.get "x-llm-ctl" = some (asciiBytes "1")
  kind : req.headers.get "content-type" = some (asciiBytes "application/json")
  body : env.parse req.body = .ok (downloadBody repo included)

/-- The extractor of the request reads the fields of a body that is parsed. -/
def ReadsDownload (env : ApiEnv) : Prop :=
  ∀ req repo included, req.headers.get "content-type" = some (asciiBytes "application/json") →
    env.parse req.body = .ok (downloadBody repo included) →
    env.hfBody req = .ok ⟨repo, some included⟩

/-- The manager after a call of `start`. -/
def callStart (env : ApiEnv) (repo included : String) (m : DownloadManager) : DownloadManager :=
  joinStarts (downloadProgram env.hf env.unicode) ⟨repo, some included⟩ m

/-- What a request for a download does: it calls `start` once, for this repository and this file,
and answers what `start` says. -/
inductive DownloadRun (env : ApiEnv) (repo included : String) :
    List (Seen AppState) → Option Reply → Prop
  | accepted (s : AppState) :
      DownloadRun env repo included
        [.access s { s with download := callStart env repo included s.download },
          .heard (Except.ok () : Except String Unit)]
        (some (.json 200 (.obj [("ok", .bool true), ("repo", .str repo)])))
  | refused (s : AppState) (e : String) :
      DownloadRun env repo included
        [.access s { s with download := callStart env repo included s.download },
          .heard (Except.error e : Except String Unit)] (some (.json 409 (errorJson e)))

/-- **The executions of the request.** -/
theorem execution_download_iff {env : ApiEnv} (hbody : ReadsDownload env) {req : Request}
    {repo included : String} (hreq : req.IsDownload env repo included)
    {tr : List (Seen AppState)} {r : Option Reply} :
    (app env req).Execution tr r ↔ DownloadRun env repo included tr r := by
  have hroute : apiRoute (asciiBytes "/api/hf/download") = some (.hfDownload, []) := by
    decide
  have hone : (req.headers.get "x-llm-ctl").bind valueText = some "1" := by
    rw [hreq.guard]
    decide
  have happ : app env req = handleHfDownload env req := by
    rw [app, hreq.path, hroute]
    simp only [requireCtlHeader, hreq.post, hone, if_true, Endpoint.call]
    rfl
  rw [happ, handleHfDownload, hbody req repo included hreq.kind hreq.body, extract,
    execution_write_bind_iff]
  constructor
  · rintro ⟨s, rest, rfl, h⟩
    obtain ⟨answer, rest, rfl, hreply⟩ := execution_hear_bind_iff.mp h
    cases answer with
    | ok _ =>
      obtain ⟨rfl, rfl⟩ := execution_pure_iff.mp hreply
      exact .accepted s
    | error e =>
      obtain ⟨rfl, rfl⟩ := execution_pure_iff.mp hreply
      exact .refused s e
  · rintro (s | ⟨s, e⟩)
    · exact ⟨s, _, rfl, execution_hear_bind_iff.mpr ⟨_, _, rfl, execution_pure_iff.mpr ⟨rfl, rfl⟩⟩⟩
    · exact ⟨s, _, rfl, execution_hear_bind_iff.mpr ⟨_, _, rfl, execution_pure_iff.mpr ⟨rfl, rfl⟩⟩⟩

/-! ## The job of a call -/

/-- Until it has claimed the job, the call asks for this. -/
def DownloadPc.Asks (repo included : String) : DownloadPc → Prop
  | .enter req => req.repo = repo ∧ req.included.getD "*.gguf" = included
  | .claim repo' included' => repo' = repo ∧ included' = included
  | _ => True

/-- The job of the manager is for this. -/
def DownloadManager.Names (m : DownloadManager) (repo included : String) : Prop :=
  m.job.repo = some repo ∧ m.job.included = some included

/-- Call `i` asks for this, and while the job is the one that it has claimed, the job is for
this. -/
def CallFor (repo included : String) (i : ℕ) (m : DownloadManager) : Prop :=
  ∃ c, m.starts[i]? = some c ∧ c.pc.Asks repo included ∧ c.claim ≤ m.gen ∧
    (c.claim ≠ 0 → c.claim = m.gen → DownloadManager.Names m repo included)

/-- What a step of a call or its task does to the job: it is claimed, or still for the same. -/
inductive JobMove (m : DownloadManager) (i : ℕ) (c : Start DownloadPc) (m' : DownloadManager) :
    Prop
  | claims (repo included : String) (now : ℚ) (hpc : c.pc = .claim repo included)
      (hm : m' = m.claimJob i (.claimed repo included now) (.spawn repo))
  | keeps (pc : DownloadPc)
      (hstarts : m'.starts = m.starts.modify i fun c => { c with pc := pc })
      (hgen : m'.gen = m.gen) (hrepo : m'.job.repo = m.job.repo)
      (hincluded : m'.job.included = m.job.included)
      (hasks : ∀ repo included, c.pc.Asks repo included → pc.Asks repo included)

section Call

variable {hf : Hf} {unicode : Char → Bool} {m m' : DownloadManager} {i : ℕ}
  {repo included : String}

theorem jobMove_of_go {c : Start DownloadPc} {e : DownloadEnv} {ev : List ClaimedRecord.Event}
    (hs : downloadGo hf unicode m i c e = some (m', ev)) : JobMove m i c m' := by
  cases e with
  | next now =>
    simp only [downloadGo] at hs
    split at hs
    · next req hpc =>
      split at hs
      all_goals obtain ⟨rfl, -⟩ := Prod.mk.inj (Option.some.inj hs)
      · exact .keeps _ rfl rfl rfl rfl fun _ _ _ => trivial
      · exact .keeps _ rfl rfl rfl rfl fun _ _ h => by rwa [hpc] at h
    · next repo included hpc =>
      obtain ⟨-, hs⟩ := free_of_section hs
      split at hs
      all_goals obtain ⟨rfl, -⟩ := Prod.mk.inj (Option.some.inj hs)
      · exact .keeps _ rfl rfl rfl rfl fun _ _ _ => trivial
      · exact .claims repo included now hpc rfl
    · obtain ⟨-, hs⟩ := free_of_section hs
      obtain ⟨rfl, -⟩ := Prod.mk.inj (Option.some.inj hs)
      exact .keeps _ rfl rfl rfl rfl fun _ _ _ => trivial
    · obtain ⟨-, hs⟩ := free_of_section hs
      split at hs
      all_goals
        obtain ⟨rfl, -⟩ := Prod.mk.inj (Option.some.inj hs)
        exact .keeps _ rfl rfl rfl rfl fun _ _ _ => trivial
    · exact absurd hs (by simp)
  | resolved path =>
    simp only [downloadGo] at hs
    split at hs
    · split at hs
      all_goals
        obtain ⟨rfl, -⟩ := Prod.mk.inj (Option.some.inj hs)
        exact .keeps _ rfl rfl rfl rfl fun _ _ _ => trivial
    · exact absurd hs (by simp)
  | persisted written =>
    simp only [downloadGo] at hs
    split at hs
    · obtain ⟨rfl, -⟩ := Prod.mk.inj (Option.some.inj hs)
      exact .keeps _ rfl rfl rfl rfl fun _ _ _ => trivial
    · exact absurd hs (by simp)
  | _ =>
    simp only [downloadGo] at hs
    split at hs
    · obtain ⟨rfl, -⟩ := Prod.mk.inj (Option.some.inj hs)
      exact .keeps _ rfl rfl rfl rfl fun _ _ _ => trivial
    · exact absurd hs (by simp)

/-- The calls and their tasks keep what a call asks for. -/
theorem CallFor.keeps {j : ℕ} {c : Start DownloadPc} {pc : DownloadPc}
    (h : CallFor repo included i m) (hc : m.starts[j]? = some c)
    (hstarts : m'.starts = m.starts.modify j fun c => { c with pc := pc })
    (hgen : m'.gen = m.gen) (hrepo : m'.job.repo = m.job.repo)
    (hincluded : m'.job.included = m.job.included)
    (hasks : c.pc.Asks repo included → pc.Asks repo included) : CallFor repo included i m' := by
  obtain ⟨d, hd, hask, hle, hnames⟩ := h
  have hupdates := updates_modify (f := fun c : Start DownloadPc => { c with pc := pc }) hc
  have hkept (k : ℕ) (hk : k ≠ 0) (heq : k = m'.gen)
      (hn : k ≠ 0 → k = m.gen → DownloadManager.Names m repo included) :
      DownloadManager.Names m' repo included := by
    obtain ⟨h₁, h₂⟩ := hn hk (heq.trans hgen)
    exact ⟨hrepo.trans h₁, hincluded.trans h₂⟩
  by_cases hij : i = j
  · subst hij
    obtain rfl : d = c := Option.some.inj (hd.symm.trans hc)
    refine ⟨{ d with pc := pc }, ?_, hasks hask, hgen ▸ hle, fun h₀ heq => hkept _ h₀ heq hnames⟩
    rw [hstarts]
    exact hupdates.self
  · refine ⟨d, ?_, hask, hgen ▸ hle, fun h₀ heq => hkept _ h₀ heq hnames⟩
    rw [hstarts, hupdates.other i hij]
    exact hd

/-- **One step keeps what a call asks for.** -/
theorem CallFor.step (h : CallFor repo included i m) {a : JobAct HfDownloadReq DownloadEnv}
    {ev : List ClaimedRecord.Event} (hs : (downloads hf unicode).step m a = some (m', ev)) :
    CallFor repo included i m' := by
  cases a with
  | call req =>
    obtain ⟨rfl, -⟩ := Prod.mk.inj (Option.some.inj hs)
    obtain ⟨c, hc, hrest⟩ := h
    exact ⟨c, getElem?_concat_of_some hc, hrest⟩
  | go j e =>
    cases hc : m.starts[j]? with
    | none => simp [downloads, JobProgram.system, JobProgram.step, hc] at hs
    | some c =>
      simp only [downloads, JobProgram.system, JobProgram.step, hc] at hs
      cases jobMove_of_go hs with
      | keeps pc hstarts hgen hrepo hincluded hasks =>
        exact h.keeps hc hstarts hgen hrepo hincluded (hasks _ _)
      | claims repo' included' now hpc hm =>
        subst hm
        obtain ⟨d, hd, hask, hle, hnames⟩ := h
        have hupdates := updates_modify (f := fun _ : Start DownloadPc =>
          ⟨.spawn repo', m.gen + 1⟩) hc
        by_cases hij : i = j
        · subst hij
          obtain rfl : d = c := Option.some.inj (hd.symm.trans hc)
          rw [hpc] at hask
          obtain ⟨rfl, rfl⟩ := hask
          exact ⟨_, hupdates.self, trivial, le_refl _, fun _ _ => ⟨rfl, rfl⟩⟩
        · -- Its own claim is older than the new one.
          refine ⟨d, (hupdates.other i hij).trans hd, hask, Nat.le_succ_of_le hle, fun _ heq => ?_⟩
          have hgen : d.claim = m.gen + 1 := heq
          omega
  | drop j =>
    cases hc : m.starts[j]? with
    | none => simp [downloads, JobProgram.system, JobProgram.step, hc] at hs
    | some c =>
      simp only [downloads, JobProgram.system, JobProgram.step, hc] at hs
      split at hs
      · obtain ⟨rfl, -⟩ := Prod.mk.inj (Option.some.inj hs)
        exact h.keeps hc rfl rfl rfl rfl fun _ => trivial
      · exact absurd hs (by simp)

/-- **Whatever happens after the call.** -/
theorem CallFor.exec (h : CallFor repo included i m) {as : List (JobAct HfDownloadReq DownloadEnv)}
    {ev : List ClaimedRecord.Event} (hx : (downloads hf unicode).exec m as = some (m', ev)) :
    CallFor repo included i m' :=
  exec_keeps (fun _ _ _ _ hs hkept => CallFor.step hkept hs) hx h

end Call

/-! ## From the list to the job -/

/-- The list of the page after a reply with these files. -/
def shownFiles (b : Browser) (host : Js.Host) (repo : String) (files : List (String × ℕ)) :
    List (List Char) :=
  offered b (Panel.hfList host repo (.ok (.json (filesJson repo files))))

/-- **The file is downloaded**: the request that is sent for a file of the list calls `start` for
it, once, whatever the field of the pattern says; and whatever happens then, that call is for this
file. -/
structure Downloads (env : ApiEnv) (repo file : String) : Prop where
  calls : ∀ (pattern : String) (req : Request), req.IsDownload env repo (includeOf file pattern) →
    ∀ tr r, (app env req).Execution tr r ↔ DownloadRun env repo file tr r
  claims : ∀ (d : DownloadManager) as m ev,
    (downloads env.hf env.unicode).exec (callStart env repo file d) as = some (m, ev) →
      CallFor repo file d.starts.length m

theorem callFor_callStart (env : ApiEnv) (repo included : String) (m : DownloadManager) :
    CallFor repo included m.starts.length (callStart env repo included m) := by
  refine ⟨⟨.enter ⟨repo, some included⟩, 0⟩, ?_, ⟨rfl, rfl⟩, Nat.zero_le _, fun h => absurd rfl h⟩
  exact List.getElem?_concat_length ..

/-- A file with a name is downloaded. -/
theorem downloads_of_ne {env : ApiEnv} (hbody : ReadsDownload env) {repo file : String}
    (hfile : file ≠ "") : Downloads env repo file := by
  constructor
  · intro pattern req hreq tr r
    have hincluded : includeOf file pattern = file := if_pos hfile
    rw [hincluded] at hreq
    exact execution_download_iff hbody hreq
  · intro d as m ev hx
    exact (callFor_callStart env repo file d).exec hx

/-- **The file that is chosen is downloaded**, whatever the hub lists: the list of the page has
the GGUF files of the hub, the small ones first, and a file that is chosen in it is the one that
the job of the request is for, whatever else is called for. -/
theorem chosen_file_downloaded {b : Browser} (hb : b.Standard) {host : Js.Host}
    (hplain : Panel.PlainHost host) {env : ApiEnv} (hquery : ReadsQuery env)
    (hbody : ReadsDownload env) {repo : String} (htrim : trim repo = repo) (hne : repo ≠ "")
    {list : Request} (hlist : list.IsFileList repo) :
    ∃ answered, app env list = .ask (Except String HfAnswer) answered ∧ ∀ status entries, ∃ files,
      ListsGguf entries files ∧
      answered (.ok ⟨true, status, .ok (.arr entries)⟩) = pure (.json 200 (filesJson repo files)) ∧
      (shownFiles b host repo files).length = files.length + 1 ∧
      ∀ k file, files[k]? = some file → KeptInDocument file.1.toList →
        (shownFiles b host repo files)[k + 1]? = some file.1.toList ∧
          Downloads env repo file.1 := by
  obtain ⟨answered, happ, hanswered⟩ := listsFiles_app hquery htrim hne hlist
  refine ⟨answered, happ, fun status entries => ?_⟩
  obtain ⟨files, hfiles, hreply⟩ := hanswered status entries
  have hshown : shownFiles b host repo files =
      b.readAttr [] :: files.map fun f => b.readAttr (escaped f.1).toList :=
    offered_hfList b hplain hne files
  refine ⟨files, hfiles, hreply, ?_, fun k file hk hkept => ⟨?_, downloads_of_ne hbody ?_⟩⟩
  · rw [hshown, List.length_cons, List.length_map]
  · have hread : b.readAttr (escaped file.1).toList = file.1.toList := by
      rw [escaped, String.toList_ofList]
      exact hb.readAttr_escape hkept
    rw [hshown, List.getElem?_cons_succ, List.getElem?_map, hk, Option.map_some, hread]
  · -- A GGUF file has a name.
    intro hempty
    have hname := hfiles.name (List.mem_of_getElem? hk)
    rw [hempty] at hname
    exact absurd hname (by decide)

/-- Libraries that read a query of one pair, and one body. -/
def chooseEnv : ApiEnv :=
  let body := downloadBody "o/r" "a\"<.gguf"
  { bareEnv with
    queryMap := fun q =>
      let q := q.getD []
      let key := q.takeWhile fun b => b != 61
      .ok [(fromUtf8Lossy (PercentDecode.decode key),
        fromUtf8Lossy (PercentDecode.decode (q.drop (key.length + 1))))]
    parse := fun bytes => if bytes = asciiBytes "b" then .ok body else .error "expected value"
    hfBody := fun req =>
      if req.body = asciiBytes "b" then
        .ok ⟨((body.get? "repo").bind Json.asStr).getD "", (body.get? "include").bind Json.asStr⟩
      else .error (.rejected 400 "") }

theorem readsQuery_chooseEnv : ReadsQuery chooseEnv := by
  intro key value k v hsigns hk hv
  have hkey : (key ++ asciiBytes "=" ++ value).takeWhile (fun b => b != 61) = key := by
    have hequals : (61 : UInt8) ∉ key := (hsigns 61 (by decide)).1
    rw [List.append_assoc, List.takeWhile_append_of_pos]
    · exact List.append_nil key
    · intro b hb
      exact bne_iff_ne.mpr fun heq => hequals (heq ▸ hb)
  have hvalue : (key ++ asciiBytes "=" ++ value).drop (key.length + 1) = value := by
    have hlength : (asciiBytes "=").length = 1 := by decide
    exact List.drop_left' (by rw [List.length_append, hlength])
  show Except.ok [_] = Except.ok [_]
  rw [Option.getD_some, hkey, hvalue, hk, hv, fromUtf8Lossy_utf8, fromUtf8Lossy_utf8]

theorem readsDownload_chooseEnv : ReadsDownload chooseEnv := by
  intro req repo included _ hbody
  have hparsed : (if req.body = asciiBytes "b" then
      Except.ok (downloadBody "o/r" "a\"<.gguf") else .error "expected value") =
        .ok (downloadBody repo included) := hbody
  by_cases hb : req.body = asciiBytes "b"
  · rw [if_pos hb] at hparsed
    obtain ⟨rfl, rfl⟩ : "o/r" = repo ∧ "a\"<.gguf" = included := by
      simpa [downloadBody] using hparsed
    exact if_pos hb
  · rw [if_neg hb] at hparsed
    exact absurd hparsed (by simp)

/-- The request for the files of a repository. -/
def chooseRequest : Request where
  method := .get
  path := asciiBytes "/api/hf/files"
  query := some (fetchQuery (asciiBytes "repo=" ++ encodeURIComponent "o/r".toList))
  headers := .ofPairs []
  body := []
  path_plain := by decide

/-- Entries of the hub: a large file, one with markup in its name, and one that is no GGUF file. -/
def chooseEntries : List Json :=
  [.obj [("path", .str "b.gguf"), ("size", .int 9)],
    .obj [("path", .str "a\"<.gguf"), ("size", .int 2)], .obj [("path", .str "README.md")]]

theorem chosen_file_downloaded_quoted :
    ∃ answered files k, app chooseEnv chooseRequest = .ask (Except String HfAnswer) answered ∧
      ListsGguf chooseEntries files ∧
      answered (.ok ⟨true, "200 OK", .ok (.arr chooseEntries)⟩) =
        pure (.json 200 (filesJson "o/r" files)) ∧
      (shownFiles ⟨readRefs⟩ Panel.londonHost "o/r" files)[k + 1]? = some "a\"<.gguf".toList ∧
      Downloads chooseEnv "o/r" "a\"<.gguf" := by
  have hchoose : chooseRequest.IsFileList "o/r" := ⟨rfl, rfl, rfl⟩
  obtain ⟨answered, happ, hanswered⟩ := chosen_file_downloaded standard_readRefs
    Panel.plain_londonHost readsQuery_chooseEnv readsDownload_chooseEnv
    (by decide : trim "o/r" = "o/r") (by decide) hchoose
  obtain ⟨files, hfiles, hreply, -, hchosen⟩ := hanswered "200 OK" chooseEntries
  have hlisted : ("a\"<.gguf", 2) ∈ chooseEntries.filterMap ggufFile := by decide
  obtain ⟨k, hk⟩ := List.mem_iff_getElem?.mp (hfiles.perm.mem_iff.mpr hlisted)
  obtain ⟨hshown, hdownloads⟩ := hchosen k _ hk (by decide)
  exact ⟨answered, files, k, happ, hfiles, hreply, hshown, hdownloads⟩

end LlmCtl
