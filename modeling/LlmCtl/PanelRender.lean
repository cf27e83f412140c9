/-
# What the panel assigns (`web/assets/app.js`)

A piece of the script returns or throws, and has assigned some texts.  `render` gets to the end of
its lists and then throws, at an element that is not there; the markup of what it has assigned is
given by the lengths of three lists (`render_spec`).  The markup of the options for the files of a
repository is given by their number (`hfList_spec`).
-/
import LlmCtl.PanelMarkup

namespace LlmCtl

namespace Panel

open Js TextTemplate

/-! ## What a piece of the script does -/

section Does

variable {α β : Type}

/-- The piece returns, and `P` says what it returns and what it assigns. -/
def Does (p : PageM α) (P : α → List HtmlWrite → Prop) : Prop :=
  ∀ page, ∃ a ws active,
    p.run.run page = (.ok a, ⟨page.writes ++ ws, active⟩) ∧ P a ws

/-- The piece throws, and `P` says what it assigns before. -/
def Throws (p : PageM α) (P : List HtmlWrite → Prop) : Prop :=
  ∀ page, ∃ ws active,
    p.run.run page = (.error .typeError, ⟨page.writes ++ ws, active⟩) ∧ P ws

/-- The piece returns and assigns nothing. -/
def Quiet (p : PageM α) (P : α → Prop) : Prop := Does p fun a ws => ws = [] ∧ P a

theorem run_bind (p : PageM α) (f : α → PageM β) (page : Page) :
    (p >>= f).run.run page
      = match p.run.run page with
        | (.ok a, page') => (f a).run.run page'
        | (.error e, page') => (.error e, page') := by
  show (ExceptT.bindCont f (p.run.run page).1).run (p.run.run page).2 = _
  rcases p.run.run page with ⟨a | e, page'⟩ <;> rfl

theorem run_tryCatch (p : PageM α) (f : Thrown → PageM α) (page : Page) :
    (tryCatch p f).run.run page
      = match p.run.run page with
        | (.ok a, page') => (.ok a, page')
        | (.error e, page') => (f e).run.run page' := by
  rw [ExceptT.run_tryCatch, StateT.run_bind]
  rcases p.run.run page with ⟨a | e, page'⟩ <;> rfl

/-- One piece, and then the next one. -/
theorem Does.bind {p : PageM α} {f : α → PageM β} {P : α → List HtmlWrite → Prop}
    {Q : β → List HtmlWrite → Prop} (hp : Does p P)
    (hf : ∀ a ws, P a ws → Does (f a) fun b vs => Q b (ws ++ vs)) : Does (p >>= f) Q := by
  intro page
  obtain ⟨a, ws, active, hrun, ha⟩ := hp page
  obtain ⟨b, vs, active', hrun', hb⟩ := hf a ws ha ⟨page.writes ++ ws, active⟩
  refine ⟨b, ws ++ vs, active', ?_, hb⟩
  rw [run_bind, hrun, ← List.append_assoc]
  exact hrun'

theorem Does.throws {p : PageM α} {f : α → PageM β} {P : α → List HtmlWrite → Prop}
    {Q : List HtmlWrite → Prop} (hp : Does p P)
    (hf : ∀ a ws, P a ws → Throws (f a) fun vs => Q (ws ++ vs)) : Throws (p >>= f) Q := by
  intro page
  obtain ⟨a, ws, active, hrun, ha⟩ := hp page
  obtain ⟨vs, active', hrun', hb⟩ := hf a ws ha ⟨page.writes ++ ws, active⟩
  refine ⟨ws ++ vs, active', ?_, hb⟩
  rw [run_bind, hrun, ← List.append_assoc]
  exact hrun'

/-- After a piece that assigns nothing. -/
theorem Quiet.does {p : PageM α} {f : α → PageM β} {P : α → Prop}
    {Q : β → List HtmlWrite → Prop} (hp : Quiet p P) (hf : ∀ a, P a → Does (f a) Q) :
    Does (p >>= f) Q := by
  refine Does.bind hp fun a ws h => ?_
  obtain ⟨rfl, ha⟩ := h
  exact hf a ha

theorem Quiet.throws {p : PageM α} {f : α → PageM β} {P : α → Prop} {Q : List HtmlWrite → Prop}
    (hp : Quiet p P) (hf : ∀ a, P a → Throws (f a) Q) : Throws (p >>= f) Q := by
  refine Does.throws hp fun a ws h => ?_
  obtain ⟨rfl, ha⟩ := h
  exact hf a ha

/-- What does not throw is not caught. -/
theorem Does.tryCatch {p : PageM α} {f : Thrown → PageM α} {P : α → List HtmlWrite → Prop}
    (hp : Does p P) : Does (tryCatch p f) P := by
  intro page
  obtain ⟨a, ws, active, hrun, ha⟩ := hp page
  exact ⟨a, ws, active, by rw [run_tryCatch, hrun], ha⟩

/-- What throws before it assigns anything is caught. -/
theorem Throws.tryCatch {p : PageM α} {f : Thrown → PageM α} {P : α → List HtmlWrite → Prop}
    (hp : Throws p fun ws => ws = []) (hf : Does (f .typeError) P) : Does (tryCatch p f) P := by
  intro page
  obtain ⟨ws, active, hrun, rfl⟩ := hp page
  obtain ⟨b, vs, active', hrun', hb⟩ := hf ⟨page.writes, active⟩
  rw [List.append_nil] at hrun
  exact ⟨b, vs, active', by rw [run_tryCatch, hrun]; exact hrun', hb⟩

theorem Does.imp {p : PageM α} {P Q : α → List HtmlWrite → Prop} (hp : Does p P)
    (h : ∀ a ws, P a ws → Q a ws) : Does p Q := by
  intro page
  obtain ⟨a, ws, active, hrun, ha⟩ := hp page
  exact ⟨a, ws, active, hrun, h a ws ha⟩

theorem Throws.imp {p : PageM α} {P Q : List HtmlWrite → Prop} (hp : Throws p P)
    (h : ∀ ws, P ws → Q ws) : Throws p Q := by
  intro page
  obtain ⟨ws, active, hrun, hws⟩ := hp page
  exact ⟨ws, active, hrun, h ws hws⟩

theorem quiet_pure {P : α → Prop} {a : α} (h : P a) : Quiet (pure a) P := fun page =>
  ⟨a, [], page.activeJob, by rw [List.append_nil]; rfl, rfl, h⟩

/-- What does not throw is lifted. -/
theorem does_lift {e : Except Thrown α} {a : α} {f : α → PageM β} {Q : β → List HtmlWrite → Prop}
    (h : e = .ok a) (hf : Does (f a) Q) : Does (liftM e >>= f) Q := by
  subst h
  exact hf

theorem throws_lift {e : Except Thrown α} {a : α} {f : α → PageM β} {Q : List HtmlWrite → Prop}
    (h : e = .ok a) (hf : Throws (f a) Q) : Throws (liftM e >>= f) Q := by
  subst h
  exact hf

theorem quiet_element {id : String} (h : id ∈ elementIds) : Quiet (element id) fun _ => True := by
  rw [element, if_pos h]
  exact quiet_pure trivial

/-- An element is there. -/
theorem does_element {id : String} {p : PageM β} {Q : β → List HtmlWrite → Prop}
    (h : id ∈ elementIds) (hp : Does p Q) : Does (element id >>= fun _ => p) Q :=
  (quiet_element h).does fun _ _ => hp

theorem quiet_elements {ids : List String} (h : ∀ id ∈ ids, id ∈ elementIds) :
    Quiet (elements ids) fun _ => True := by
  induction ids with
  | nil => exact quiet_pure trivial
  | cons id ids ih =>
    show Quiet (element id >>= fun _ => elements ids) _
    exact (quiet_element (h id List.mem_cons_self)).does fun _ _ =>
      ih fun x hx => h x (List.mem_cons_of_mem id hx)

theorem does_setHtml {id : String} (h : id ∈ elementIds) (html : List (TemplatePart Char)) :
    Does (setHtml id html) fun _ ws => ws = [⟨id, String.ofList (text html)⟩] := by
  refine (quiet_element h).does fun _ _ page => ?_
  exact ⟨(), _, page.activeJob, rfl, rfl⟩

end Does

section Lists

variable {host : Host}

/-! ## What is assigned -/

/-- The element and the markup of an assignment. -/
def HtmlWrite.markup (w : HtmlWrite) : String × List Char := (w.id, marks isMarkup w.html.toList)

/-- The markup of some rows. -/
def rowsMarkup (template : List (TemplatePart Char)) (n : ℕ) : List Char :=
  marks isMarkup (List.replicate n (literals template)).flatten

theorem markup_write {id : String} {ps : List (TemplatePart Char)} (h : HolesInert isMarkup ps) :
    HtmlWrite.markup ⟨id, String.ofList (text ps)⟩ = (id, marks isMarkup (literals ps)) := by
  rw [HtmlWrite.markup, String.toList_ofList, marks_text h]

/-- Some text without markup in its holes is assigned. -/
theorem does_setMarkup {id : String} (h : id ∈ elementIds) {html : List (TemplatePart Char)}
    {ms : List Char} (hinert : HolesInert isMarkup html)
    (hms : marks isMarkup (literals html) = ms) :
    Does (setHtml id html) fun _ ws => ws.map HtmlWrite.markup = [(id, ms)] :=
  (does_setHtml h html).imp fun _ ws hws => by
    rw [hws, List.map_singleton, markup_write hinert, hms]

theorem activeId_ok {models : List Json} (h : ∀ m ∈ models, modelShape.Fits m) :
    ∃ id, activeId models = .ok id := by
  induction models with
  | nil => exact ⟨_, rfl⟩
  | cons m models ih =>
    obtain ⟨active, hactive, -⟩ := get_record (h m List.mem_cons_self) "active" .flag (by simp)
    obtain ⟨id, hid, -⟩ := get_record (h m List.mem_cons_self) "id" .text (by simp)
    obtain ⟨rest, hrest⟩ := ih fun x hx => h x (List.mem_cons_of_mem m hx)
    have hstep : activeId (m :: models)
        = if (Js.json active).truthy then (Js.json m).get "id" else activeId models := by
      rw [activeId]
      exact bind_ok hactive _
    rw [hstep]
    split
    · exact ⟨_, hid⟩
    · exact ⟨_, hrest⟩

/-- What is assigned to the list of the models. -/
theorem renderModels_spec (host : Host) {s : Json} (h : statusShape.Fits s) :
    Does (renderModels host (.json s)) fun _ ws =>
      ws.map HtmlWrite.markup
        = [("models", rowsMarkup (modelHtml false "" "") (s.listLength "models"))] := by
  obtain ⟨models, hmodels, hlength, hfits⟩ := get_list h "models" modelShape (by simp)
  obtain ⟨active, hactive⟩ := activeId_ok hfits
  obtain ⟨rows, hrows, hinert, hlit⟩ :=
    mapM_rows (fun _ => modelRow_spec host active) hfits
  rw [renderModels]
  refine does_lift hmodels ?_
  refine does_lift (a := models) rfl ?_
  refine does_lift hactive ?_
  refine does_lift hrows ?_
  refine does_setMarkup (by simp [elementIds]) hinert ?_
  rw [hlit, hlength, rowsMarkup]

/-- The markup of the list of the sessions. -/
def sessionsMarkup (n : ℕ) : List Char :=
  if n = 0 then marks isMarkup (literals noSessions)
  else rowsMarkup (sessionHtml "" "" "" "" "" "" "") n

/-- The markup of the list of the builds. -/
def buildsMarkup (n : ℕ) : List Char := rowsMarkup (buildHtml false "" "" "") n

/-- Rows of a template that has markup are there if there are items. -/
theorem text_rows_eq_nil {template rows : List (TemplatePart Char)} {n : ℕ}
    (hmarks : marks isMarkup (literals template) ≠ []) (hinert : HolesInert isMarkup rows)
    (hlit : literals rows = (List.replicate n (literals template)).flatten)
    (hnil : text rows = []) : n = 0 := by
  cases n with
  | zero => rfl
  | succ n =>
    have hnone : marks isMarkup (literals rows) = [] := by rw [← marks_text hinert, hnil]; rfl
    rw [hlit, List.replicate_succ, List.flatten_cons, marks_append] at hnone
    exact absurd (List.append_eq_nil_iff.mp hnone).1 hmarks

/-- What is assigned to the list of the sessions. -/
theorem renderSessions_spec (hplain : PlainHost host) {s : Json} (h : statusShape.Fits s) :
    Does (renderSessions host (.json s)) fun _ ws =>
      ws.map HtmlWrite.markup = [("sessions", sessionsMarkup (s.listLength "sessions"))] := by
  obtain ⟨sessions, hsessions, hlength, hfits⟩ := get_list h "sessions" sessionShape (by simp)
  obtain ⟨rows, hrows, hinert, hlit⟩ := mapM_rows (fun _ => sessionRow_spec hplain) hfits
  rw [renderSessions]
  refine does_lift hsessions ?_
  refine does_lift (a := sessions) rfl ?_
  refine does_lift hrows ?_
  rw [hlength, sessionsMarkup]
  split
  · next hnil =>
    have hnone := text_rows_eq_nil (by decide) hinert hlit hnil
    rw [if_pos hnone]
    exact does_setMarkup (by simp [elementIds]) (holesInert_of_lit (by simp [noSessions, lit])) rfl
  · next hsome =>
    have hn : sessions.length ≠ 0 := by
      intro hzero
      obtain rfl := List.eq_nil_of_length_eq_zero hzero
      obtain rfl : rows = [] := (Except.ok.inj hrows).symm
      exact hsome rfl
    rw [if_neg hn]
    refine does_setMarkup (by simp [elementIds]) hinert ?_
    rw [hlit, rowsMarkup]

/-- What is assigned to the list of the builds. -/
theorem renderBuilds_spec (hplain : PlainHost host) {s : Json} (h : statusShape.Fits s) :
    Does (renderBuilds host (.json s)) fun _ ws =>
      ws.map HtmlWrite.markup = [("builds", buildsMarkup (s.listLength "builds"))] := by
  obtain ⟨builds, hbuilds, hlength, hfits⟩ := get_list h "builds" buildShape (by simp)
  obtain ⟨rows, hrows, hinert, hlit⟩ := mapM_rows (fun _ => buildRow_spec hplain) hfits
  rw [renderBuilds]
  refine does_lift hbuilds ?_
  refine does_lift rfl ?_
  rw [hlength, buildsMarkup]
  split
  · refine does_lift (a := builds) rfl ?_
    refine does_lift hrows ?_
    refine does_setMarkup (by simp [elementIds]) hinert ?_
    rw [hlit, rowsMarkup]
  · next hzero =>
    have hnone : builds = [] := by
      by_contra hne
      have hpos := List.length_pos_iff.mpr hne
      exact hzero (by simp [truthy]; omega)
    subst hnone
    refine does_setMarkup (by simp [elementIds]) (holesInert_of_lit (by simp [lit])) ?_
    decide

/-! ## What assigns nothing -/

theorem quiet_textOf (host : Host) {v : Js} (h : Scalar v) :
    Quiet (textOf host v) fun _ => True := by
  obtain ⟨t, ht⟩ := h.string host
  rw [textOf]
  exact does_lift ht (quiet_pure trivial)

theorem quiet_textIf (host : Host) {v : Js} (h : Scalar v) :
    Quiet (textIf host v) fun _ => True := by
  rw [textIf]
  split
  · exact quiet_textOf host h
  · exact quiet_pure trivial

theorem quiet_activeJob (job : Option String) :
    Quiet (modify fun page => { page with activeJob := job } : PageM Unit) fun _ => True :=
  fun page => ⟨(), [], job, by rw [List.append_nil]; rfl, rfl, trivial⟩

theorem quiet_page : Quiet (getThe Page : PageM Page) fun _ => True := fun page =>
  ⟨page, [], page.activeJob, by rw [List.append_nil]; rfl, rfl, trivial⟩

/-- The worker and the other tiers. -/
theorem quiet_renderWorker (host : Host) {s : Json} (h : statusShape.Fits s) :
    Quiet (renderWorker host (.json s)) fun _ => True := by
  obtain ⟨w, hw, hwfits⟩ := get_record h "worker" workerShape (by simp)
  obtain ⟨cross, hcross, hcrossfits⟩ := get_record h "cross_tier" crossShape (by simp)
  obtain ⟨status, hstatus, hstatusfits⟩ := get_record hwfits "status" .text (by simp)
  obtain ⟨model, hmodel, hmodelfits⟩ := get_record hwfits "model" (.orNull .text) (by simp)
  obtain ⟨pid, hpid, hpidfits⟩ := get_record hwfits "pid" (.orNull .number) (by simp)
  obtain ⟨pve, hpve, -⟩ := get_record hcrossfits "pve" .flag (by simp)
  obtain ⟨postgres, hpostgres, -⟩ := get_record hcrossfits "postgres" .flag (by simp)
  have hstopped : Scalar (Js.text "Stopped") := trivial
  have hnone : Scalar (Js.text "no model") := trivial
  rw [renderWorker]
  refine does_lift hw ?_
  rw [orElse_record hwfits]
  refine does_lift hstatus ?_
  refine (quiet_textOf host ((scalar_text hstatusfits).orElse hstopped)).does fun _ _ => ?_
  refine does_element (by simp [elementIds]) ?_
  refine does_lift hmodel ?_
  refine (quiet_textOf host
    ((scalar_orNull (fun _ => scalar_text) hmodelfits).orElse hnone)).does fun _ _ => ?_
  refine does_lift hpid ?_
  refine (quiet_textIf host (scalar_orNull (fun _ => scalar_number) hpidfits)).does fun _ _ => ?_
  refine does_element (by simp [elementIds]) ?_
  refine does_lift hcross ?_
  rw [orElse_record hcrossfits]
  refine does_lift hpve ?_
  refine does_element (by simp [elementIds]) ?_
  refine does_lift hpostgres ?_
  exact quiet_element (by simp [elementIds])

theorem stringsOfItems_ok (host : Host) {log : List Json}
    (h : ∀ line ∈ log, JsonShape.text.Fits line) : ∃ ts, stringsOfItems host log = .ok ts := by
  induction log with
  | nil => exact ⟨[], rfl⟩
  | cons line log ih =>
    obtain ⟨t, rfl⟩ := h line List.mem_cons_self
    obtain ⟨ts, hts⟩ := ih fun x hx => h x (List.mem_cons_of_mem _ hx)
    refine ⟨t :: ts, ?_⟩
    rw [stringsOfItems_text, hts]
    rfl

/-- A job: what `renderJob` reads of it. -/
structure IsJob (job : Js) : Prop where
  truthy : job.truthy = true
  status : ∃ t, job.get "status" = .ok (Js.text t)
  error : ∃ v, job.get "error" = .ok v ∧ Scalar v
  log : ∃ lines, job.get "log" = .ok (.json (.arr lines)) ∧
    ∀ line ∈ lines, JsonShape.text.Fits line

theorem isJob_of_fits {fields : List (String × JsonShape)} {v : Json}
    (h : (JsonShape.record fields).Fits v) (hstatus : ("status", .text) ∈ fields)
    (herror : ("error", .orNull .text) ∈ fields) (hlog : ("log", .list .text) ∈ fields) :
    IsJob (.json v) := by
  obtain ⟨status, hget, t, rfl⟩ := get_record h "status" .text hstatus
  obtain ⟨error, hgeterror, herrorfits⟩ := get_record h "error" (.orNull .text) herror
  obtain ⟨lines, hlines, -, hfits⟩ := get_list h "log" .text hlog
  exact ⟨truthy_record h, ⟨t, hget⟩,
    ⟨_, hgeterror, scalar_orNull (fun _ => scalar_text) herrorfits⟩, ⟨lines, hlines, hfits⟩⟩

theorem quiet_joinLog (host : Host) {job : Js} (h : IsJob job) (left : ℕ → ℕ) :
    Quiet (joinLog host job left) fun _ => True := by
  obtain ⟨lines, hlines, hfits⟩ := h.log
  rw [joinLog]
  refine does_lift hlines ?_
  refine does_lift (a := lines) rfl ?_
  have hleft : ∀ line ∈ lines.drop (left lines.length), JsonShape.text.Fits line :=
    fun line hline => hfits line (List.mem_of_mem_drop hline)
  obtain ⟨ts, hts⟩ := stringsOfItems_ok host hleft
  exact does_lift hts (quiet_pure trivial)

theorem quiet_showLog (host : Host) {job : Js} (h : IsJob job) :
    Quiet (showLog host job) fun _ => True :=
  (quiet_joinLog host h _).does fun _ _ => quiet_element (by simp [elementIds])

/-- A job. -/
theorem quiet_renderJob (host : Host) {name : String} {job : Js} (h : IsJob job)
    (hname : name ++ "-job" ∈ elementIds) : Quiet (renderJob host name job) fun _ => True := by
  obtain ⟨status, hstatus⟩ := h.status
  obtain ⟨error, herror, herrorscalar⟩ := h.error
  have hstatusscalar : Scalar (Js.text status) := trivial
  rw [renderJob]
  refine does_element hname ?_
  rw [if_pos h.truthy]
  refine does_lift hstatus ?_
  split
  · exact quiet_pure trivial
  · refine (quiet_joinLog host h _).does fun _ _ => ?_
    refine (quiet_textOf host hstatusscalar).does fun _ _ => ?_
    refine does_lift herror ?_
    refine (quiet_textIf host herrorscalar).does fun _ _ => ?_
    split
    · exact (quiet_activeJob _).does fun _ _ => quiet_showLog host h
    · refine quiet_page.does fun page _ => ?_
      split
      · exact (quiet_showLog host h).does fun _ _ => quiet_activeJob _
      · exact quiet_pure trivial

/-- The commits of the last rebuild. -/
theorem quiet_shaText (host : Host) {v : Json} (h : rebuildShape.Fits v) :
    Quiet (shaText host (.json v)) fun _ => True := by
  obtain ⟨before, hbefore, hbeforefits⟩ := get_record h "before_sha" (.orNull .text) (by simp)
  obtain ⟨after, hafter, hafterfits⟩ := get_record h "after_sha" (.orNull .text) (by simp)
  have hnone : Scalar (Js.text "") := trivial
  rw [shaText, if_pos (truthy_record h)]
  refine does_lift hbefore ?_
  refine does_lift hafter ?_
  split
  · refine (quiet_textOf host
      ((scalar_orNull (fun _ => scalar_text) hbeforefits).orElse hnone)).does fun _ _ => ?_
    exact quiet_textOf host (scalar_orNull (fun _ => scalar_text) hafterfits)
  split
  · next htruthy =>
    rcases hbeforefits with rfl | ⟨t, rfl⟩
    · exact absurd htruthy Bool.false_ne_true
    · exact quiet_pure trivial
  · exact quiet_pure trivial

theorem quiet_renderSha (host : Host) {s : Json} (h : statusShape.Fits s) :
    Quiet (renderSha host (.json s)) fun _ => True := by
  obtain ⟨rebuild, hrebuild, hfits⟩ := get_record h "rebuild" rebuildShape (by simp)
  rw [renderSha]
  refine does_lift hrebuild ?_
  exact (quiet_shaText host hfits).does fun _ _ => quiet_elements (by simp [elementIds])

/-- `v && v.key` of a record. -/
theorem quiet_readIf {fields : List (String × JsonShape)} {v : Json}
    (h : (JsonShape.record fields).Fits v) (key : String) (s : JsonShape)
    (hmem : (key, s) ∈ fields) : Quiet (readIf (.json v) key) fun _ => True := by
  obtain ⟨x, hx, -⟩ := get_record h key s hmem
  rw [readIf, if_pos (truthy_record h)]
  exact does_lift hx (quiet_pure trivial)

/-- The flags of the controls. -/
theorem quiet_renderControls {s : Json} (h : statusShape.Fits s) :
    Quiet (renderControls (.json s)) fun _ => True := by
  obtain ⟨download, hdownload, hdownloadfits⟩ := get_record h "download" downloadShape (by simp)
  obtain ⟨rebuild, hrebuild, hrebuildfits⟩ := get_record h "rebuild" rebuildShape (by simp)
  rw [renderControls]
  refine does_lift hdownload ?_
  refine (quiet_readIf hdownloadfits "status" .text (by simp)).does fun _ _ => ?_
  refine (quiet_elements (by simp [elementIds])).does fun _ _ => ?_
  refine does_lift hrebuild ?_
  refine (quiet_readIf hrebuildfits "status" .text (by simp)).does fun _ _ => ?_
  exact quiet_element (by simp [elementIds])

/-- The build of the worker. -/
theorem quiet_renderLlama (host : Host) {s : Json} (h : statusShape.Fits s) :
    Quiet (renderLlama host (.json s)) fun _ => True := by
  obtain ⟨llama, hllama, hfits⟩ := get_record h "llama" llamaShape (by simp)
  have hfield : ∀ key, (key, JsonShape.text) ∈ [("commit", JsonShape.text), ("branch", .text),
      ("binary", .text)] → ∃ x t, (Js.json llama).get key = .ok x ∧ esc host x = .ok t := by
    intro key hmem
    obtain ⟨x, hx, hxfits⟩ := get_record hfits key .text hmem
    obtain ⟨t, ht, -⟩ := scalar_esc host (scalar_text hxfits)
    exact ⟨_, t, hx, ht⟩
  obtain ⟨commit, c, hcommit, hc⟩ := hfield "commit" (by simp)
  obtain ⟨branch, b, hbranch, hb⟩ := hfield "branch" (by simp)
  obtain ⟨binary, p, hbinary, hp⟩ := hfield "binary" (by simp)
  rw [renderLlama]
  refine does_lift hllama ?_
  rw [orElse_record hfits]
  refine does_lift hcommit ?_
  refine does_lift hc ?_
  refine does_lift hbranch ?_
  refine does_lift hb ?_
  refine does_lift hbinary ?_
  refine does_lift hp ?_
  exact quiet_element (by simp [elementIds])

theorem throws_elements {ids : List String} {id : String} (h : id ∈ ids) (hnot : id ∉ elementIds) :
    Throws (elements ids) fun ws => ws = [] := by
  induction ids with
  | nil => exact absurd h List.not_mem_nil
  | cons i ids ih =>
    show Throws (element i >>= fun _ => elements ids) _
    by_cases hi : i ∈ elementIds
    · refine (quiet_element hi).throws fun _ _ => ih ?_
      rcases List.mem_cons.mp h with rfl | h
      · exact absurd hi hnot
      · exact h
    · intro page
      refine ⟨[], page.activeJob, ?_, rfl⟩
      rw [element, if_neg hi, List.append_nil]
      rfl

/-- There is no element whose id begins with `#`. -/
theorem throws_renderStats : Throws renderStats fun ws => ws = [] := by
  have hid : "#vram-sub" ∉ elementIds := by decide
  exact throws_elements (by simp) hid

/-! ## The whole -/

/-- The markup of what `render` assigns, given the lengths of the lists. -/
def renderMarkup (models sessions builds : ℕ) : List (String × List Char) :=
  [("models", rowsMarkup (modelHtml false "" "") models), ("sessions", sessionsMarkup sessions),
    ("builds", buildsMarkup builds)]

/-- **The markup of what is assigned is given by the lengths of the lists.**  In the end the script
throws at an element that is not there. -/
theorem render_spec (hplain : PlainHost host) {s : Json} (h : statusShape.Fits s) :
    Throws (render host (.json s)) fun ws =>
      ws.map HtmlWrite.markup = renderMarkup (s.listLength "models") (s.listLength "sessions")
        (s.listLength "builds") := by
  obtain ⟨download, hdownload, hdownloadfits⟩ := get_record h "download" downloadShape (by simp)
  obtain ⟨rebuild, hrebuild, hrebuildfits⟩ := get_record h "rebuild" rebuildShape (by simp)
  have hdownloadjob : IsJob (.json download) :=
    isJob_of_fits hdownloadfits (by simp) (by simp) (by simp)
  have hrebuildjob : IsJob (.json rebuild) :=
    isJob_of_fits hrebuildfits (by simp) (by simp) (by simp)
  rw [render]
  refine (quiet_renderWorker host h).throws fun _ _ => ?_
  refine (renderModels_spec host h).throws fun _ models hmodels => ?_
  refine (renderSessions_spec hplain h).throws fun _ sessions hsessions => ?_
  refine throws_lift hdownload ?_
  refine (quiet_renderJob host hdownloadjob (by decide)).throws fun _ _ => ?_
  refine throws_lift hrebuild ?_
  refine (quiet_renderJob host hrebuildjob (by decide)).throws fun _ _ => ?_
  refine (quiet_renderSha host h).throws fun _ _ => ?_
  refine (quiet_renderControls h).throws fun _ _ => ?_
  refine (quiet_renderLlama host h).throws fun _ _ => ?_
  refine (renderBuilds_spec hplain h).throws fun _ builds hbuilds => ?_
  refine throws_renderStats.imp fun ws hws => ?_
  subst hws
  rw [List.append_nil, List.map_append, List.map_append, hmodels, hsessions, hbuilds, renderMarkup]
  rfl

/-- The markup of what the handler of `hf-list` assigns, given the number of the files in the
reply. -/
def hfListMarkup (files : ℕ) : List (String × List Char) :=
  [("hf-files", marks isMarkup "<option value=\"\">(loading…)</option>".toList),
    ("hf-files", marks isMarkup (literals [chooseOption] ++
      (List.replicate files (literals (optionHtml "" ""))).flatten))]

theorem does_loading :
    Does (setHtml "hf-files" [lit "<option value=\"\">(loading…)</option>"]) fun _ ws =>
      ws.map HtmlWrite.markup
        = [("hf-files", marks isMarkup "<option value=\"\">(loading…)</option>".toList)] := by
  refine does_setMarkup (by simp [elementIds]) (holesInert_of_lit (by simp [lit])) ?_
  rw [literals, List.flatMap_singleton, lit, partLiteral]

/-- **The files of a repository.**  The markup of what is assigned is given by their number. -/
theorem hfList_spec (hplain : PlainHost host) {repo : String} (hrepo : repo ≠ "") {r : Json}
    (h : filesShape.Fits r) :
    Does (hfList host repo (.ok (.json r))) fun _ ws =>
      ws.map HtmlWrite.markup = hfListMarkup (r.listLength "files") := by
  obtain ⟨files, hfiles, hlength, hfits⟩ := get_list h "files" fileShape (by simp)
  obtain ⟨options, hoptions, hinert, hlit⟩ := mapM_rows (fun _ => fileOption_spec hplain) hfits
  rw [hfList, if_neg hrepo]
  refine does_element (by simp [elementIds]) ?_
  refine does_loading.bind fun _ loading hloading => ?_
  refine Does.tryCatch ?_
  refine does_lift rfl ?_
  refine does_lift hfiles ?_
  refine does_lift (a := files) rfl ?_
  refine does_lift hoptions ?_
  have hchoose : HolesInert isMarkup [chooseOption] :=
    holesInert_of_lit (by simp [chooseOption, lit])
  have hall : HolesInert isMarkup (chooseOption :: options.flatten) := hchoose.append hinert
  refine (does_setMarkup (by simp [elementIds]) hall rfl).bind fun _ shown hshown => ?_
  refine (quiet_element (by simp [elementIds])).imp fun _ ws hws => ?_
  rw [hws.1, List.append_nil, List.map_append, hloading, hshown, hfListMarkup, hlength, ← hlit]
  rfl

/-- An answer that is no reply leaves no files. -/
theorem hfList_failed (host : Host) {repo : String} (hrepo : repo ≠ "") :
    Does (hfList host repo (.error .typeError)) fun _ ws =>
      ws.map HtmlWrite.markup = hfListMarkup 0 := by
  rw [hfList, if_neg hrepo]
  refine does_element (by simp [elementIds]) ?_
  refine does_loading.bind fun _ loading hloading => ?_
  refine Throws.tryCatch (fun page => ⟨[], page.activeJob, by rw [List.append_nil]; rfl, rfl⟩) ?_
  refine (does_setMarkup (by simp [elementIds]) (holesInert_of_lit (by simp [chooseOption, lit]))
    rfl).bind fun _ shown hshown => ?_
  refine (quiet_element (by simp [elementIds])).imp fun _ ws hws => ?_
  rw [hws.1, List.append_nil, List.map_append, hloading, hshown, hfListMarkup]
  rfl

end Lists

end Panel

end LlmCtl
