/-
# The files of a repository (`app.js`, `main.rs`, `download.rs`)

The panel asks for the files of a repository that is typed in, and offers them in a list.  The
name of the repository is carried by the query of an address; the names of the files come from the
hub, go through the reply of the daemon and then through markup, which the browser reads.

What is offered are the GGUF files that the hub lists, the small ones first, each under its own
name.
-/
import LlmCtl.StartButton

namespace LlmCtl

open PercentDecode TextTemplate

/-! ## The query -/

/-- A byte that the query of an address keeps. -/
def isQueryByte (b : UInt8) : Bool :=
  decide (33 ≤ b ∧ b ≤ 126) && !(b ∈ asciiBytes "\"<>" || b == 39)

/-- `fetch`: the query of the address. -/
def fetchQuery (q : List UInt8) : List UInt8 := encode isQueryByte q

/-- The bytes that have a meaning in a query. -/
def querySigns : List UInt8 := asciiBytes "&=+"

/-- The request of `api("/api/hf/files?repo=…")`. -/
structure Request.IsFileList (req : Request) (repo : String) : Prop where
  get : req.method = .get
  path : req.path = asciiBytes "/api/hf/files"
  query : req.query = some (fetchQuery (asciiBytes "repo=" ++ encodeURIComponent repo.toList))

/-- The extractor of a query reads a key and its value, where neither has a byte with a
meaning. -/
def ReadsQuery (env : ApiEnv) : Prop :=
  ∀ (key value : List UInt8) (k v : String), (∀ b ∈ querySigns, b ∉ key ∧ b ∉ value) →
    decode key = utf8 k.toList → decode value = utf8 v.toList →
    env.queryMap (some (key ++ asciiBytes "=" ++ value)) = .ok [(k, v)]

/-- The query is that of `encodeURIComponent`, with one more byte escaped. -/
theorem fetchQuery_repo (repo : String) :
    fetchQuery (asciiBytes "repo=" ++ encodeURIComponent repo.toList) =
      asciiBytes "repo" ++ asciiBytes "=" ++
        encode (fun b => isUriUnreserved b && isQueryByte b) (utf8 repo.toList) := by
  have hlead : fetchQuery (asciiBytes "repo=") = asciiBytes "repo" ++ asciiBytes "=" := by
    decide
  have hpercent : isQueryByte percent = true := by decide
  have hdigit (b : UInt8) : (hexValue b).isSome = true → isQueryByte b = true :=
    forall_byte (P := fun b => (hexValue b).isSome = true → isQueryByte b = true)
      (by decide +kernel) b
  rw [← hlead, fetchQuery, fetchQuery, encodeURIComponent,
    ← encode_encode hpercent hdigit]
  exact List.flatMap_append

/-- The repository is read as it is written. -/
theorem queryMap_fileList {env : ApiEnv} (h : ReadsQuery env) (repo : String) :
    env.queryMap (some (fetchQuery (asciiBytes "repo=" ++ encodeURIComponent repo.toList))) =
      .ok [("repo", repo)] := by
  have hsigns : ∀ b ∈ querySigns, b ∉ asciiBytes "repo" ∧
      (isUriUnreserved b && isQueryByte b) = false ∧ b ≠ percent ∧ hexValue b = none := by
    decide +kernel
  rw [fetchQuery_repo]
  refine h _ _ "repo" repo (fun b hb => ?_) (by decide)
    (decode_encode (by decide) _)
  obtain ⟨hkey, hunkept, hpercent, hdigit⟩ := hsigns b hb
  refine ⟨hkey, fun hmem => ?_⟩
  rcases mem_encode hmem with hkept | rfl | hvalue
  · exact absurd (hunkept.symm.trans hkept) Bool.false_ne_true
  · exact hpercent rfl
  · rw [hdigit] at hvalue
    exact absurd hvalue Bool.false_ne_true

/-! ## The reply -/

namespace Api

open Resumption

/-- The reply with these files. -/
def filesJson (repo : String) (files : List (String × ℕ)) : Json :=
  .obj [("repo", .str repo), ("files", .arr (files.map fileJson))]

/-- The files that are listed for the entries of the hub: its GGUF files, the small ones first. -/
structure ListsGguf (entries : List Json) (files : List (String × ℕ)) : Prop where
  perm : files.Perm (entries.filterMap ggufFile)
  ascending : files.Pairwise fun f g => f.2 ≤ g.2

/-- **What `list_files` lists.** -/
theorem listsGguf_mergeSort (entries : List Json) :
    ListsGguf entries ((entries.filterMap ggufFile).mergeSort fun a b => decide (a.2 ≤ b.2)) := by
  refine ⟨List.mergeSort_perm _ _, ?_⟩
  have hsorted : ((entries.filterMap ggufFile).mergeSort fun a b => decide (a.2 ≤ b.2)).Pairwise
      fun a b => decide (a.2 ≤ b.2) = true := by
    refine List.pairwise_mergeSort ?_ ?_ _
    · intro a b c hab hbc
      exact decide_eq_true ((of_decide_eq_true hab).trans (of_decide_eq_true hbc))
    · intro a b
      simpa using le_total a.2 b.2
  exact hsorted.imp of_decide_eq_true

/-- A listed file has a name that ends as those of GGUF files do. -/
theorem ListsGguf.name {entries : List Json} {files : List (String × ℕ)}
    (h : ListsGguf entries files) {file : String × ℕ} (hfile : file ∈ files) :
    ".gguf".toList <:+ file.1.toList := by
  obtain ⟨e, -, he⟩ := List.mem_filterMap.mp (h.perm.mem_iff.mp hfile)
  rw [ggufFile] at he
  split at he
  · exact absurd he (by simp)
  · split at he
    · next hsuffix =>
      split at he
      all_goals
        obtain rfl := Option.some.inj he
        exact List.isSuffixOf_iff_suffix.mp hsuffix
    · exact absurd he (by simp)

/-- The request asks the hub one question, and the reply says what the hub lists. -/
def ListsFiles (env : ApiEnv) (req : Request) (repo : String) : Prop :=
  ∃ answered, app env req = .ask (Except String HfAnswer) answered ∧ ∀ status entries, ∃ files,
    ListsGguf entries files ∧
      answered (.ok ⟨true, status, .ok (.arr entries)⟩) = pure (.json 200 (filesJson repo files))

/-- **The reply to `hf-list`.** -/
theorem listsFiles_app {env : ApiEnv} (hquery : ReadsQuery env) {repo : String}
    (htrim : trim repo = repo) (hne : repo ≠ "") {req : Request} (hreq : req.IsFileList repo) :
    ListsFiles env req repo := by
  have hroute : apiRoute (asciiBytes "/api/hf/files") = some (.hfFiles, []) := by decide
  have happ : app env req = handleHfFiles env req := by
    rw [app, hreq.path, hroute]
    simp only [requireCtlHeader, hreq.get, reduceCtorEq, if_false]
    rw [Endpoint.call, hreq.get]
    rfl
  rw [ListsFiles, happ, handleHfFiles, hreq.query, queryMap_fileList hquery, extract]
  simp only [List.find?_cons, beq_self_eq_true, Option.map_some, Option.getD_some, htrim, hne,
    if_false]
  exact ⟨_, rfl, fun status entries => ⟨_, listsGguf_mergeSort entries, rfl⟩⟩

end Api

/-! ## The list in the page -/

open Api

/-- What opens an option. -/
def optionOpening : List Char := "<option value=\"".toList

/-- The values of the options in a text; each runs to the next quote. -/
def optionValues : List Char → List (List Char)
  | [] => []
  | c :: t =>
    if optionOpening.isPrefixOf (c :: t) then
      (((c :: t).drop optionOpening.length).takeWhile fun d => d != '"') :: optionValues t
    else optionValues t

/-- What the list offers after a handler, in a page that is new. -/
def offered (b : Browser) (p : Panel.PageM Unit) : List (List Char) :=
  let page := (p.run.run ⟨[], none⟩).2
  ((page.writes.getLast?.map fun w => optionValues w.html.toList).getD []).map b.readAttr

theorem optionOpening_eq : optionOpening = '<' :: 'o' :: "ption value=\"".toList := by
  decide

/-- No option is opened in a text without `<`. -/
theorem optionValues_append {s : List Char} (h : '<' ∉ s) (t : List Char) :
    optionValues (s ++ t) = optionValues t := by
  induction s with
  | nil => rfl
  | cons c s ih =>
    have hc : (optionOpening.isPrefixOf (c :: (s ++ t))) = false := by
      have hne : '<' ≠ c := fun heq => h (heq ▸ List.mem_cons_self)
      rw [optionOpening_eq, List.isPrefixOf, beq_eq_false_iff_ne.mpr hne, Bool.false_and]
    rw [List.cons_append, optionValues, hc]
    exact ih fun hmem => h (List.mem_cons_of_mem c hmem)

/-- The value of an option. -/
theorem optionValues_opening {v : List Char} (hlt : '<' ∉ v) (hquot : '"' ∉ v) (t : List Char) :
    optionValues (optionOpening ++ v ++ '"' :: t) = v :: optionValues t := by
  have hopen : optionOpening.isPrefixOf (optionOpening ++ (v ++ '"' :: t)) = true :=
    List.isPrefixOf_iff_prefix.mpr (List.prefix_append _ _)
  have hvalue : ((optionOpening ++ (v ++ '"' :: t)).drop optionOpening.length).takeWhile
      (fun d => d != '"') = v := by
    rw [List.drop_left, List.takeWhile_append_of_pos]
    · simp
    · intro d hd
      exact bne_iff_ne.mpr fun heq => hquot (heq ▸ hd)
  obtain ⟨name, hname, hplain⟩ : ∃ name, optionOpening = '<' :: name ∧ '<' ∉ name :=
    ⟨_, optionOpening_eq, by decide⟩
  have hskip : optionValues (name ++ (v ++ '"' :: t)) = optionValues t := by
    rw [optionValues_append hplain, optionValues_append hlt]
    exact optionValues_append (s := ['"']) (by simp) t
  have hunfold : optionValues ('<' :: (name ++ (v ++ '"' :: t))) =
      if optionOpening.isPrefixOf ('<' :: (name ++ (v ++ '"' :: t))) then
        ((('<' :: (name ++ (v ++ '"' :: t))).drop optionOpening.length).takeWhile
          fun d => d != '"') :: optionValues (name ++ (v ++ '"' :: t))
      else optionValues (name ++ (v ++ '"' :: t)) := by rw [optionValues]
  rw [← List.cons_append, ← hname, hopen, if_pos rfl, hvalue, hskip] at hunfold
  rw [List.append_assoc]
  exact hunfold

/-- The end of an option opens none. -/
theorem optionValues_close (t : List Char) :
    optionValues ("</option>".toList ++ t) = optionValues t := by
  have hname : "</option>".toList = '<' :: '/' :: "option>".toList := by decide
  have hplain : '<' ∉ '/' :: "option>".toList := by decide
  have hopen (u : List Char) : optionOpening.isPrefixOf ('<' :: '/' :: u) = false := by
    rw [optionOpening_eq]
    simp only [List.isPrefixOf, Bool.and_eq_false_iff]
    exact .inr (.inl (by decide))
  rw [hname, List.cons_append, optionValues, List.cons_append, hopen]
  exact optionValues_append hplain t

/-- An option, and what is opened after it. -/
theorem optionValues_optionHtml {path size : String} (hpath : Inert Panel.isMarkup path.toList)
    (hsize : Inert Panel.isMarkup size.toList) (t : List Char) :
    optionValues (text (Panel.optionHtml path size) ++ t) = path.toList :: optionValues t := by
  have hlt {s : String} (hs : Inert Panel.isMarkup s.toList) : '<' ∉ s.toList := fun hmem =>
    absurd (hs _ hmem) (by decide)
  have hquot : '"' ∉ path.toList := fun hmem => absurd (hpath _ hmem) (by decide)
  have hend : "\">".toList = '"' :: ">".toList := by decide
  have hlast : " MB)</option>".toList = " MB)".toList ++ "</option>".toList := by decide
  have hplain : '<' ∉ ">".toList ∧ '<' ∉ " (".toList ∧ '<' ∉ " MB)".toList := by decide
  have hparts (a b c d : String) : text [Panel.lit a, Panel.fill path, Panel.lit b,
      Panel.fill path, Panel.lit c, Panel.fill size, Panel.lit d] = a.toList ++ path.toList ++
        (b.toList ++ (path.toList ++ (c.toList ++ (size.toList ++ d.toList)))) := by
    simp [text, Panel.lit, Panel.fill, partText]
  have hgroup (o p b c n d e : List Char) :
      o ++ p ++ ('"' :: b ++ (p ++ (c ++ (n ++ (d ++ e))))) ++ t =
        o ++ p ++ '"' :: (b ++ (p ++ (c ++ (n ++ (d ++ (e ++ t)))))) := by simp
  have htext : text (Panel.optionHtml path size) ++ t =
      optionOpening ++ path.toList ++ '"' :: (">".toList ++ (path.toList ++ (" (".toList ++
        (size.toList ++ (" MB)".toList ++ ("</option>".toList ++ t)))))) := by
    rw [Panel.optionHtml, hparts, hend, hlast]
    exact hgroup optionOpening path.toList _ _ size.toList _ _
  rw [htext, optionValues_opening (hlt hpath) hquot, optionValues_append hplain.1,
    optionValues_append (hlt hpath), optionValues_append hplain.2.1,
    optionValues_append (hlt hsize), optionValues_append hplain.2.2,
    optionValues_close]

/-- The option that stands first has an empty value. -/
theorem optionValues_chooseOption (rest : List (TemplatePart Char)) :
    optionValues (text (Panel.chooseOption :: rest)) = [] :: optionValues (text rest) := by
  have hparts : "<option value=\"\">choose a GGUF…</option>".toList =
      optionOpening ++ '"' :: (">choose a GGUF…".toList ++ "</option>".toList) := by decide
  have hplain : '<' ∉ ">choose a GGUF…".toList := by decide
  have hgroup (o c d t : List Char) :
      (o ++ '"' :: (c ++ d)) ++ t = o ++ [] ++ '"' :: (c ++ (d ++ t)) := by simp
  have htext : text (Panel.chooseOption :: rest) =
      optionOpening ++ [] ++ '"' :: (">choose a GGUF…".toList ++ ("</option>".toList ++ text rest))
      := by
    rw [text, List.flatMap_cons, Panel.chooseOption, Panel.lit, partText, hparts]
    exact hgroup optionOpening _ _ (text rest)
  rw [htext, optionValues_opening List.not_mem_nil List.not_mem_nil, optionValues_append hplain,
    optionValues_close]

/-- The code of a name. -/
def escaped (name : String) : String := String.ofList (escape Panel.escChar name.toList)

section Handler

variable {host : Js.Host}

/-- The option of a file of the reply. -/
theorem fileOption_fileJson (file : String × ℕ) :
    ∃ size, Panel.fileOption host (fileJson file) =
      .ok (Panel.optionHtml (escaped file.1) (Panel.asFloat host size)) := ⟨_, rfl⟩

/-- **The options of the files of a reply.** -/
theorem mapM_fileOption (hplain : Panel.PlainHost host) (files : List (String × ℕ)) :
    ∃ options, (files.map fileJson).mapM (Panel.fileOption host) = .ok options ∧
      optionValues (text options.flatten) = files.map fun f => (escaped f.1).toList := by
  induction files with
  | nil => exact ⟨[], rfl, rfl⟩
  | cons file files ih =>
    obtain ⟨options, hoptions, hvalues⟩ := ih
    obtain ⟨size, hsize⟩ := @fileOption_fileJson host file
    refine ⟨Panel.optionHtml (escaped file.1) (Panel.asFloat host size) :: options, ?_, ?_⟩
    · rw [List.map_cons, List.mapM_cons]
      exact (Js.bind_ok hsize _).trans ((Js.bind_ok hoptions _).trans rfl)
    · have hinert : Inert Panel.isMarkup (escaped file.1).toList := by
        rw [escaped, String.toList_ofList]
        exact inert_escape Panel.inert_escChar _
      rw [List.flatten_cons, text, List.flatMap_append]
      show optionValues (text (Panel.optionHtml _ _) ++ text options.flatten) = _
      rw [optionValues_optionHtml hinert (Panel.inert_asFloat hplain size), hvalues, List.map_cons]

/-- **What the list offers**: after the first option, the names of the files as the browser reads
them. -/
theorem offered_hfList (b : Browser) (hplain : Panel.PlainHost host) {repo : String}
    (hne : repo ≠ "") (files : List (String × ℕ)) :
    offered b (Panel.hfList host repo (.ok (.json (filesJson repo files)))) =
      b.readAttr [] :: files.map fun f => b.readAttr (escaped f.1).toList := by
  obtain ⟨options, hoptions, hvalues⟩ := mapM_fileOption hplain files
  have hdoes : Panel.Does (Panel.hfList host repo (.ok (.json (filesJson repo files)))) fun _ ws =>
      ws.getLast? = some ⟨"hf-files", String.ofList (text (Panel.chooseOption :: options.flatten))⟩
      := by
    rw [Panel.hfList, if_neg hne]
    refine Panel.does_element (by simp [Panel.elementIds]) ?_
    refine (Panel.does_setHtml (by simp [Panel.elementIds]) _).bind fun _ loading hloading => ?_
    refine Panel.Does.tryCatch ?_
    refine Panel.does_lift rfl ?_
    refine Panel.does_lift (a := .json (.arr (files.map fileJson))) rfl ?_
    refine Panel.does_lift (a := files.map fileJson) rfl ?_
    refine Panel.does_lift hoptions ?_
    refine (Panel.does_setHtml (by simp [Panel.elementIds]) _).bind fun _ shown hshown => ?_
    refine (Panel.quiet_element (by simp [Panel.elementIds])).imp fun _ ws hws => ?_
    rw [hws.1, hshown, List.append_nil]
    exact List.getLast?_concat ..
  obtain ⟨a, ws, active, hrun, hlast⟩ := hdoes ⟨[], none⟩
  rw [offered, hrun]
  simp only [List.nil_append, hlast, Option.map_some, Option.getD_some, String.toList_ofList,
    optionValues_chooseOption, hvalues, List.map_cons, List.map_map]
  exact congrArg _ rfl

end Handler

end LlmCtl
