/-
# The start button (`app.js`, `main.rs`)

The row of a model carries the model's id in an attribute of its button.  On its way from the
registry to `handle_model_start` the id is escaped into markup, read back by the browser, percent
encoded into a path, has its dot segments removed with the rest of the path, is matched against
the routes, and is percent decoded.

All of this together gives back the id, whatever it is, unless it is empty or one of the dot
segments: then the path of the request is another one.
-/
import LlmCtl.ApiGuard
import LlmCtl.PanelSafe
import LlmCtl.PercentEncode
import LlmCtl.Utf8Text

namespace LlmCtl

open PercentDecode TextTemplate

/-! ## The browser -/

/-- What the browser makes of the text of an attribute. -/
structure Browser where
  readAttr : List Char → List Char

/-- The character references that `esc` writes stand for their characters, and other characters
for themselves, but for those that a document does not keep. -/
structure Browser.Standard (b : Browser) : Prop where
  nil : b.readAttr [] = []
  amp : ∀ t, b.readAttr ("&amp;".toList ++ t) = '&' :: b.readAttr t
  lt : ∀ t, b.readAttr ("&lt;".toList ++ t) = '<' :: b.readAttr t
  gt : ∀ t, b.readAttr ("&gt;".toList ++ t) = '>' :: b.readAttr t
  quot : ∀ t, b.readAttr ("&quot;".toList ++ t) = '"' :: b.readAttr t
  apos : ∀ t, b.readAttr ("&#39;".toList ++ t) = Char.ofNat 39 :: b.readAttr t
  other : ∀ c t, c ≠ '&' → c ≠ '\r' → c.toNat ≠ 0 → b.readAttr (c :: t) = c :: b.readAttr t

/-- A text that a document keeps as it is. -/
def KeptInDocument (cs : List Char) : Prop := ∀ c ∈ cs, c ≠ '\r' ∧ c.toNat ≠ 0

instance (cs : List Char) : Decidable (KeptInDocument cs) :=
  decidable_of_iff (cs.all fun c => c != '\r' && c.toNat != 0) (by simp [KeptInDocument])

/-- The browser reads the code of a character. -/
theorem Browser.Standard.readAttr_escChar {b : Browser} (h : b.Standard) {c : Char}
    (hcr : c ≠ '\r') (hnul : c.toNat ≠ 0) (t : List Char) :
    b.readAttr (Panel.escChar c ++ t) = c :: b.readAttr t := by
  unfold Panel.escChar
  split
  · next hc => rw [h.amp, hc]
  · next hamp =>
    split
    · next hc => rw [h.lt, hc]
    · split
      · next hc => rw [h.gt, hc]
      · split
        · next hc => rw [h.quot, hc]
        · split
          · next hc =>
            have hapos : Char.ofNat 39 = c := by rw [← hc, Char.ofNat_toNat]
            rw [h.apos, hapos]
          · rw [List.singleton_append, h.other c t hamp hcr hnul]

/-- **The browser reads what was escaped.** -/
theorem Browser.Standard.readAttr_escape {b : Browser} (h : b.Standard) {cs : List Char}
    (hcs : KeptInDocument cs) : b.readAttr (escape Panel.escChar cs) = cs := by
  induction cs with
  | nil => exact h.nil
  | cons c cs ih =>
    obtain ⟨hcr, hnul⟩ := hcs c List.mem_cons_self
    rw [escape, List.flatMap_cons, h.readAttr_escChar hcr hnul]
    exact congrArg (c :: ·) (ih fun d hd => hcs d (List.mem_cons_of_mem c hd))

/-! ## The address of a request -/

/-- The bytes that `encodeURIComponent` keeps. -/
def isUriUnreserved (b : UInt8) : Bool :=
  decide (48 ≤ b ∧ b ≤ 57 ∨ 65 ≤ b ∧ b ≤ 90 ∨ 97 ≤ b ∧ b ≤ 122) ||
    b ∈ asciiBytes "-_.!~*()" || b == 39

/-- `encodeURIComponent`. -/
def encodeURIComponent (s : List Char) : List UInt8 := encode isUriUnreserved (utf8 s)

/-- The spellings of a dot in a segment. -/
def dotSpellings : List (List UInt8) := [asciiBytes ".", asciiBytes "%2e", asciiBytes "%2E"]

/-- A single-dot segment. -/
def isSingleDot (seg : List UInt8) : Bool := decide (seg ∈ dotSpellings)

/-- A double-dot segment. -/
def isDoubleDot (seg : List UInt8) : Bool :=
  decide (seg ∈ dotSpellings.flatMap fun a => dotSpellings.map fun b => a ++ b)

/-- The segments of a path without its dot segments: `done` are those that have been read. -/
def resolveDots : List (List UInt8) → List (List UInt8) → List (List UInt8)
  | done, [] => done
  | done, seg :: rest =>
    let last := rest = []
    if isDoubleDot seg then resolveDots (done.dropLast ++ if last then [[]] else []) rest
    else if isSingleDot seg then resolveDots (done ++ if last then [[]] else []) rest
    else resolveDots (done ++ [seg]) rest

/-- The path with these segments. -/
def pathOf (segs : List (List UInt8)) : List UInt8 := segs.flatMap fun seg => Api.slash :: seg

/-- `fetch` of a path: its address has no dot segments. -/
def fetchPath (path : List UInt8) : List UInt8 :=
  pathOf (resolveDots [] ((path.drop 1).splitOn Api.slash))

/-- `doAction`: the path that a button asks for. -/
def actionPath (act : List Char) (id : List Char) : List UInt8 :=
  if act = "start".toList then
    asciiBytes "/api/models/" ++ encodeURIComponent id ++ asciiBytes "/start"
  else asciiBytes "/api/models/stop"

/-- The request of `api(path, { method: "POST" })`. -/
def Request.IsAction (req : Request) (path : List UInt8) : Prop :=
  req.method = .post ∧ req.path = fetchPath path ∧
    req.headers.get "x-llm-ctl" = some (asciiBytes "1")

/-- What is filled in after an opening that the template says. -/
def filledAfter (opening : String) : List (TemplatePart Char) → Option (List Char)
  | [] => none
  | .hole _ :: rest => filledAfter opening rest
  | .lit l :: rest =>
    if opening.toList.isSuffixOf l then
      match rest with
      | .hole t :: _ => some t
      | _ => none
    else filledAfter opening rest

/-- A click on the button of a row: the path that is asked for. -/
def clickPath (b : Browser) (row : List (TemplatePart Char)) : Option (List UInt8) := do
  let act ← filledAfter "data-act=\"" row
  let id ← filledAfter "data-id=\"" row
  return actionPath (b.readAttr act) (b.readAttr id)

/-! ## Codes of an id -/

theorem not_isUriUnreserved_percent : isUriUnreserved percent = false := by decide

/-- A code has no slash. -/
theorem slash_notMem_encodeURIComponent (cs : List Char) :
    Api.slash ∉ encodeURIComponent cs := by
  intro h
  rcases mem_encode h with hkeep | hpercent | hdigit
  · exact absurd hkeep (by decide)
  · exact absurd hpercent (by decide)
  · exact absurd hdigit (by decide)

theorem decode_encodeURIComponent (cs : List Char) : decode (encodeURIComponent cs) = utf8 cs :=
  decode_encode not_isUriUnreserved_percent _

/-- **A code is a single-dot segment just if the id is a dot**: a dot is never escaped. -/
theorem isSingleDot_encodeURIComponent {cs : List Char} :
    isSingleDot (encodeURIComponent cs) = true ↔ cs = ['.'] := by
  have hdecode : ∀ seg ∈ dotSpellings, decode seg = utf8 ['.'] := by decide
  constructor
  · intro h
    have hdot := hdecode _ (of_decide_eq_true h)
    rw [decode_encodeURIComponent] at hdot
    exact utf8_injective hdot
  · rintro rfl
    decide

/-- A code is a double-dot segment just if the id is one. -/
theorem isDoubleDot_encodeURIComponent {cs : List Char} :
    isDoubleDot (encodeURIComponent cs) = true ↔ cs = ['.', '.'] := by
  have hdecode : ∀ seg ∈ dotSpellings.flatMap fun a => dotSpellings.map fun b => a ++ b,
      decode seg = utf8 ['.', '.'] := by decide
  constructor
  · intro h
    have hdots := hdecode _ (of_decide_eq_true h)
    rw [decode_encodeURIComponent] at hdots
    exact utf8_injective hdots
  · rintro rfl
    decide

theorem encodeURIComponent_eq_nil_iff {cs : List Char} : encodeURIComponent cs = [] ↔ cs = [] := by
  constructor
  · intro h
    have hdecode := decode_encodeURIComponent cs
    rw [h] at hdecode
    exact utf8_eq_nil_iff.mp hdecode.symm
  · rintro rfl
    rfl

/-! ## The path of a start -/

/-- The ids that a path cannot carry. -/
def unreachableIds : List (List Char) := [[], ['.'], ['.', '.']]

/-- The segments of the path of a start. -/
theorem splitOn_start (cs : List Char) :
    ((asciiBytes "/api/models/" ++ encodeURIComponent cs ++ asciiBytes "/start").drop 1).splitOn
        Api.slash =
      [asciiBytes "api", asciiBytes "models", encodeURIComponent cs, asciiBytes "start"] := by
  have hsegs : (asciiBytes "/api/models/" ++ encodeURIComponent cs ++ asciiBytes "/start").drop 1 =
      [Api.slash].intercalate
        [asciiBytes "api", asciiBytes "models", encodeURIComponent cs, asciiBytes "start"] := by
    rw [List.append_assoc]
    rfl
  rw [hsegs]
  refine List.splitOn_intercalate Api.slash ?_ (by simp)
  intro seg hseg
  simp only [List.mem_cons, List.not_mem_nil, or_false] at hseg
  rcases hseg with rfl | rfl | rfl | rfl
  · decide
  · decide
  · exact slash_notMem_encodeURIComponent cs
  · decide

/-- **The path of a start is asked for as it is written**, unless the id is a dot segment. -/
theorem fetchPath_start {cs : List Char} (h : cs ∉ unreachableIds) :
    fetchPath (actionPath "start".toList cs) =
      asciiBytes "/api/models/" ++ encodeURIComponent cs ++ asciiBytes "/start" := by
  have hsingle : isSingleDot (encodeURIComponent cs) = false := by
    rw [← Bool.not_eq_true, isSingleDot_encodeURIComponent]
    rintro rfl
    exact h (by decide)
  have hdouble : isDoubleDot (encodeURIComponent cs) = false := by
    rw [← Bool.not_eq_true, isDoubleDot_encodeURIComponent]
    rintro rfl
    exact h (by decide)
  have hfixed : ∀ seg ∈ [asciiBytes "api", asciiBytes "models", asciiBytes "start"],
      isSingleDot seg = false ∧ isDoubleDot seg = false := by decide
  have hapi := hfixed (asciiBytes "api") (by simp)
  have hmodels := hfixed (asciiBytes "models") (by simp)
  have hstart := hfixed (asciiBytes "start") (by simp)
  rw [actionPath, if_pos rfl, fetchPath, splitOn_start]
  simp only [resolveDots, hsingle, hdouble, hapi, hmodels, hstart, Bool.false_eq_true, if_false]
  rw [List.append_assoc]
  show pathOf [asciiBytes "api", asciiBytes "models", encodeURIComponent cs, asciiBytes "start"] = _
  simp only [pathOf, List.flatMap_cons, List.flatMap_nil]
  rfl

/-! ## The row of a model -/

theorem filledAfter_modelHtml (isActive : Bool) (name about : String) :
    filledAfter "data-id=\"" (Panel.modelHtml isActive name about) = some name.toList ∧
      filledAfter "data-act=\"" (Panel.modelHtml isActive name about) =
        some (if isActive then "stop" else "start").toList := ⟨rfl, rfl⟩

/-! ## The route -/

/-- A path below the models fits the routes of the models only. -/
theorem matchPath_models (segs : List Api.Segment) (rest : List UInt8) :
    Api.matchPath (.text "api" :: .text "models" :: segs) (asciiBytes "/api/models/" ++ rest) =
      Api.matchPath segs (Api.slash :: rest) := rfl

theorem matchPath_other {t : String} (ht : t ∈ ["health", "pve", "db", "session-test", "sessions"])
    (segs : List Api.Segment) (rest : List UInt8) :
    Api.matchPath (.text "api" :: .text t :: segs) (asciiBytes "/api/models/" ++ rest) = none := by
  simp only [List.mem_cons, List.not_mem_nil, or_false] at ht
  rcases ht with rfl | rfl | rfl | rfl | rfl <;> rfl

/-- The parameter of a start. -/
theorem matchPath_start {enc : List UInt8} (hslash : Api.slash ∉ enc) (hne : enc ≠ []) :
    Api.matchPath [.param, .text "start"] (Api.slash :: (enc ++ asciiBytes "/start")) =
      some [enc] := by
  have htake : (enc ++ asciiBytes "/start").takeWhile (fun c => c != Api.slash) = enc := by
    rw [List.takeWhile_append_of_pos]
    · exact List.append_nil enc
    · intro b hb
      exact bne_iff_ne.mpr fun heq => hslash (heq ▸ hb)
  simp only [Api.matchPath, htake, List.drop_left]
  rw [if_pos ⟨trivial, hne⟩]
  rfl

theorem apiRoute_start {enc : List UInt8} (hslash : Api.slash ∉ enc) (hne : enc ≠ []) :
    Api.apiRoute (asciiBytes "/api/models/" ++ enc ++ asciiBytes "/start") =
      some (.modelStart, [enc]) := by
  have hother : ∀ t ∈ ["health", "pve", "db", "session-test", "sessions"], ∀ segs,
      Api.matchPath (.text "api" :: .text t :: segs)
        (asciiBytes "/api/models/" ++ (enc ++ asciiBytes "/start")) = none :=
    fun t ht segs => matchPath_other ht segs _
  rw [List.append_assoc, Api.apiRoute, Api.routes]
  simp only [List.findSome?_cons, Api.Endpoint.path]
  rw [hother "health" (by simp), hother "pve" (by simp), hother "db" (by simp),
    hother "session-test" (by simp), hother "sessions" (by simp), matchPath_models,
    matchPath_models, matchPath_start hslash hne]
  rfl

/-! ## The handler -/

namespace Api

open Resumption

/-- What a call of `start_model` for this model does, and what is answered to it. -/
inductive Started (env : ApiEnv) (m : Model) : List (Seen AppState) → Option Reply → Prop
  | ok (t : AppState) :
      Started env m
        [.access t (supervise env (.callStart m) t), .heard (Except.ok () : Except String Unit)]
        (some (.json 200 (.obj [("ok", .bool true), ("model", .str m.id)])))
  | error (t : AppState) (e : String) :
      Started env m
        [.access t (supervise env (.callStart m) t), .heard (Except.error e : Except String Unit)]
        (some (.json 502 (errorJson e)))

/-- What a request for a start of the model with this id does: it looks the id up, and calls
`start_model` once, for the first model that has it. -/
inductive StartRun (env : ApiEnv) (id : String) : List (Seen AppState) → Option Reply → Prop
  | missing (s : AppState) (h : s.download.rest.models.find? (fun x => x.id == id) = none) :
      StartRun env id [.access s s]
        (some (.json 404 (errorJson (String.join ["model '", id, "' not found"]))))
  | found {s : AppState} {m : Model} {rest : List (Seen AppState)} {r : Option Reply}
      (h : s.download.rest.models.find? (fun x => x.id == id) = some m)
      (hrest : Started env m rest r) : StartRun env id (.access s s :: rest) r

/-- Where the id is found, the rest is the call. -/
theorem startRun_found_iff {env : ApiEnv} {id : String} {s : AppState} {m : Model}
    (hm : s.download.rest.models.find? (fun x => x.id == id) = some m)
    {rest : List (Seen AppState)} {r : Option Reply} :
    StartRun env id (.access s s :: rest) r ↔ Started env m rest r := by
  constructor
  · intro h
    cases h with
    | missing _ hnone => exact absurd (hnone.symm.trans hm) (by simp)
    | found hm' hrest =>
      obtain rfl := Option.some.inj (hm'.symm.trans hm)
      exact hrest
  · exact .found hm

/-- **The request starts the model with this id**: its executions are those. -/
def StartsModel (env : ApiEnv) (req : Request) (id : String) : Prop :=
  ∀ tr r, (app env req).Execution tr r ↔ StartRun env id tr r

section Handler

variable {env : ApiEnv} {req : Request} {id : String} {enc : List UInt8}
  {tr : List (Seen AppState)} {r : Option Reply}

/-- A call of `start_model`, and what follows. -/
theorem execution_startModel_bind_iff {m : Model} {f : Except String Unit → ApiTask Reply} :
    (startModel env m >>= f).Execution tr r ↔ ∃ t answer rest,
      tr = .access t (supervise env (.callStart m) t) :: .heard answer :: rest ∧
        (f answer).Execution rest r := by
  have hassoc : startModel env m >>= f = write (supervise env (.callStart m)) >>= fun _ =>
      hear (Except String Unit) >>= f := bind_assoc _ _ _
  rw [hassoc, execution_write_bind_iff]
  constructor
  · rintro ⟨t, rest, rfl, h⟩
    obtain ⟨answer, rest, rfl, hf⟩ := execution_hear_bind_iff.mp h
    exact ⟨t, answer, rest, rfl, hf⟩
  · rintro ⟨t, answer, rest, rfl, h⟩
    exact ⟨t, _, rfl, execution_hear_bind_iff.mpr ⟨answer, rest, rfl, h⟩⟩

/-- **The executions of `handle_model_start`.** -/
theorem execution_handleModelStart_iff (henc : env.pathText enc = .ok id) :
    (handleModelStart env enc).Execution tr r ↔ StartRun env id tr r := by
  rw [handleModelStart, henc, extract, execution_read_bind_iff]
  constructor
  · rintro ⟨s, rest, rfl, h⟩
    cases hm : s.download.rest.models.find? (fun x => x.id == id) with
    | none =>
      rw [hm] at h
      obtain ⟨rfl, rfl⟩ := execution_pure_iff.mp h
      exact .missing s hm
    | some m =>
      rw [hm] at h
      obtain ⟨t, answer, rest, rfl, hreply⟩ := execution_startModel_bind_iff.mp h
      refine .found hm ?_
      cases answer with
      | ok _ =>
        obtain ⟨rfl, rfl⟩ := execution_pure_iff.mp hreply
        exact .ok t
      | error e =>
        obtain ⟨rfl, rfl⟩ := execution_pure_iff.mp hreply
        exact .error t e
  · intro h
    cases h with
    | missing s hm =>
      refine ⟨s, _, rfl, ?_⟩
      rw [hm]
      exact execution_pure_iff.mpr ⟨rfl, rfl⟩
    | @found s m rest r hm hrest =>
      refine ⟨s, rest, rfl, ?_⟩
      rw [hm]
      refine execution_startModel_bind_iff.mpr ?_
      cases hrest with
      | ok t => exact ⟨t, _, _, rfl, execution_pure_iff.mpr ⟨rfl, rfl⟩⟩
      | error t e => exact ⟨t, _, _, rfl, execution_pure_iff.mpr ⟨rfl, rfl⟩⟩

/-- An action is let through to its route. -/
theorem app_eq_post {path : List UInt8} (hreq : req.IsAction path) {e : Endpoint}
    {params : List (List UInt8)} (hroute : apiRoute (fetchPath path) = some (e, params))
    {handler : ApiTask Reply} (hpost : e.post env req params = some handler) :
    app env req = handler := by
  obtain ⟨hmethod, hpath, hheader⟩ := hreq
  have hone : (req.headers.get "x-llm-ctl").bind valueText = some "1" := by
    rw [hheader]
    decide
  rw [app, hpath, hroute]
  simp only [requireCtlHeader, hmethod, hone, if_true, Endpoint.call, hpost, Option.getD_some]

/-- **A path that carries the id starts the model.** -/
theorem startsModel_of_reachable {id : List Char} (hid : id ∉ unreachableIds)
    (hreq : req.IsAction (actionPath "start".toList id))
    (htext : env.pathText (encodeURIComponent id) = .ok (String.ofList id)) :
    StartsModel env req (String.ofList id) := by
  have hne : encodeURIComponent id ≠ [] := by
    rw [Ne, encodeURIComponent_eq_nil_iff]
    rintro rfl
    exact hid (by decide)
  have hroute : apiRoute (fetchPath (actionPath "start".toList id)) =
      some (.modelStart, [encodeURIComponent id]) := by
    rw [fetchPath_start hid]
    exact apiRoute_start (slash_notMem_encodeURIComponent id) hne
  have happ : app env req = handleModelStart env (encodeURIComponent id) :=
    app_eq_post hreq hroute rfl
  intro tr r
  rw [happ]
  exact execution_handleModelStart_iff htext

/-- The other ids are not carried: the request goes to the worker, and changes nothing. -/
theorem readOnly_of_unreachable {id : List Char} (hid : id ∈ unreachableIds)
    (hreq : req.IsAction (actionPath "start".toList id)) : (app env req).ReadOnly := by
  have hpaths : ∀ id ∈ unreachableIds,
      apiRoute (fetchPath (actionPath "start".toList id)) = none ∧
        isCompletionPath (fetchPath (actionPath "start".toList id)) = false ∧
        (fetchPath (actionPath "start".toList id) = asciiBytes "/" ||
          under "/assets" (fetchPath (actionPath "start".toList id))) = false := by
    decide
  obtain ⟨hroute, hcompletion, hpanel⟩ := hpaths id hid
  obtain ⟨-, hpath, -⟩ := hreq
  rw [← hpath] at hroute hcompletion hpanel
  have happ : app env req = handleFallback env req := by
    rw [app, hroute]
    exact if_neg (by rw [hpanel]; exact Bool.false_ne_true)
  rw [happ]
  refine readOnly_handleFallback hroute fun hstray => ?_
  exact absurd (hcompletion.symm.trans hstray.2.2.1) Bool.false_ne_true

/-- A call joins the queue. -/
theorem supervise_callStart_ne {s : AppState} (hmain : s.sup.main.accepts = true) (m : Model) :
    supervise env (.callStart m) s ≠ s := by
  intro heq
  have hqueue := congrArg (fun s : AppState => s.sup.queue.length) heq
  simp [supervise, step, hmain] at hqueue

end Handler

end Api

/-! ## The button -/

open Api

/-- The row of a model of a status reply. -/
theorem modelRow_eq (host : Js.Host) (active : Js) (printable : Char → Bool) (st : WorkerState)
    (m : Model) :
    ∃ about, Panel.modelRow host active (modelJson printable st m) =
      .ok (Panel.modelHtml ((Js.json (.str m.id)).strictEq active)
        (String.ofList (escape Panel.escChar m.id.toList)) about) := by
  have habout : ∃ about, Panel.esc host
      ((Js.json (.str m.description)).orElse (Js.json (.str m.model))) = .ok about := by
    rw [Js.orElse]
    split
    · exact ⟨_, rfl⟩
    · exact ⟨_, rfl⟩
  obtain ⟨about, habout⟩ := habout
  have hget : Panel.modelRow host active (modelJson printable st m) = (do
      let about ← Panel.esc host
        ((Js.json (.str m.description)).orElse (Js.json (.str m.model)))
      return Panel.modelHtml ((Js.json (.str m.id)).strictEq active)
        (String.ofList (escape Panel.escChar m.id.toList)) about) := rfl
  rw [hget, habout]
  exact ⟨about, rfl⟩

/-- **What a click on the row asks for.** -/
theorem clickPath_modelRow {host : Js.Host} {b : Browser} (hb : b.Standard) {active : Js}
    {printable : Char → Bool} {st : WorkerState} {m : Model}
    (hactive : (Js.json (.str m.id)).strictEq active = false) (hkept : KeptInDocument m.id.toList)
    {row : List (TemplatePart Char)}
    (hrow : Panel.modelRow host active (modelJson printable st m) = .ok row) :
    clickPath b row = some (actionPath "start".toList m.id.toList) := by
  obtain ⟨about, heq⟩ := modelRow_eq host active printable st m
  rw [hactive] at heq
  obtain rfl := Except.ok.inj (heq.symm.trans hrow)
  obtain ⟨hid, hact⟩ :=
    filledAfter_modelHtml false (String.ofList (escape Panel.escChar m.id.toList)) about
  have hstart : b.readAttr "start".toList = "start".toList := by
    have hplain : escape Panel.escChar "start".toList = "start".toList := by decide
    have hkept : KeptInDocument "start".toList := by decide
    have hread := hb.readAttr_escape hkept
    rwa [hplain] at hread
  have hname : b.readAttr (String.ofList (escape Panel.escChar m.id.toList)).toList =
      m.id.toList := by
    rw [String.toList_ofList]
    exact hb.readAttr_escape hkept
  rw [clickPath, hid, hact]
  show some (actionPath (b.readAttr "start".toList) (b.readAttr _)) = _
  rw [hstart, hname]

/-- A click on the row of a model whose id a path can carry. -/
theorem startsModel_of_click {host : Js.Host} {b : Browser} (hb : b.Standard) {env : ApiEnv}
    {st : WorkerState} {m : Model} {active : Js}
    (hactive : (Js.json (.str m.id)).strictEq active = false)
    (hkept : KeptInDocument m.id.toList)
    (htext : ∀ enc text, decode enc = utf8 text.toList → env.pathText enc = .ok text)
    {row : List (TemplatePart Char)}
    (hrow : Panel.modelRow host active (modelJson env.printable st m) = .ok row)
    {path : List UInt8} (hclick : clickPath b row = some path) {req : Request}
    (hreq : req.IsAction path) (hid : m.id.toList ∉ unreachableIds) :
    StartsModel env req m.id := by
  obtain rfl : actionPath "start".toList m.id.toList = path :=
    Option.some.inj ((clickPath_modelRow hb hactive hkept hrow).symm.trans hclick)
  have hdecode : decode (encodeURIComponent m.id.toList) =
      utf8 (String.ofList m.id.toList).toList := by
    rw [decode_encodeURIComponent, String.toList_ofList]
  have hstarts := startsModel_of_reachable hid hreq (htext _ _ hdecode)
  rwa [String.ofList_toList] at hstarts

/-- **A click starts the model of the row**, whatever its id is, unless a path cannot carry it:
for every model of a status reply that is not shown as active. -/
theorem start_button_iff {host : Js.Host} {b : Browser} (hb : b.Standard) {env : ApiEnv}
    {st : WorkerState} {m : Model} {active : Js}
    (hactive : (Js.json (.str m.id)).strictEq active = false)
    (hkept : KeptInDocument m.id.toList)
    (htext : ∀ enc text, decode enc = utf8 text.toList → env.pathText enc = .ok text)
    {row : List (TemplatePart Char)}
    (hrow : Panel.modelRow host active (modelJson env.printable st m) = .ok row)
    {path : List UInt8} (hclick : clickPath b row = some path) {req : Request}
    (hreq : req.IsAction path) :
    StartsModel env req m.id ↔ m.id.toList ∉ unreachableIds := by
  refine ⟨fun hstarts hid => ?_, startsModel_of_click hb hactive hkept htext hrow hclick hreq⟩
  obtain rfl : actionPath "start".toList m.id.toList = path :=
    Option.some.inj ((clickPath_modelRow hb hactive hkept hrow).symm.trans hclick)
  let s : AppState :=
    { servingState "a" none with download := { newDownloads with rest := ⟨[m], none⟩ } }
  have hfind : s.download.rest.models.find? (fun x => x.id == m.id) = some m :=
    List.find?_cons_of_pos (beq_self_eq_true m.id)
  have hexec := (hstarts _ _).mpr (.found hfind (.ok s))
  have hwrites := hexec.writes (List.mem_cons_of_mem _ List.mem_cons_self)
  exact supervise_callStart_ne (by rfl) m (readOnly_of_unreachable hid hreq _ _ hwrites)

/-- What a browser reads. -/
def readRefs : List Char → List Char
  | '&' :: 'a' :: 'm' :: 'p' :: ';' :: t => '&' :: readRefs t
  | '&' :: 'l' :: 't' :: ';' :: t => '<' :: readRefs t
  | '&' :: 'g' :: 't' :: ';' :: t => '>' :: readRefs t
  | '&' :: 'q' :: 'u' :: 'o' :: 't' :: ';' :: t => '"' :: readRefs t
  | '&' :: '#' :: '3' :: '9' :: ';' :: t => Char.ofNat 39 :: readRefs t
  | c :: t => c :: readRefs t
  | [] => []

theorem standard_readRefs : (⟨readRefs⟩ : Browser).Standard where
  nil := rfl
  amp _ := rfl
  lt _ := rfl
  gt _ := rfl
  quot _ := rfl
  apos _ := rfl
  other c t hamp _ _ := by simp [readRefs, hamp]

/-- Libraries that read the parameter of a path. -/
def paramEnv : ApiEnv :=
  { bareEnv with
    pathText := fun enc =>
      let text := fromUtf8Lossy (decode enc)
      if utf8 text.toList = decode enc then .ok text else .error (.rejected 400 "") }

/-- An id with markup, a slash, dots and a letter of two bytes. -/
def quotedModel : Model where
  id := "<a \"é\"&/../%2e"
  model := "a.gguf"

/-- The request of a click on a model. -/
def clickRequest (id : List Char) (h : questionMark ∉ fetchPath (actionPath "start".toList id)) :
    Request where
  method := .post
  path := fetchPath (actionPath "start".toList id)
  query := none
  headers := .ofPairs [("x-llm-ctl", asciiBytes "1")]
  body := []
  path_plain := h

/-- The request for a start of this model. -/
def quotedRequest : Request := clickRequest quotedModel.id.toList (by decide)

/-- Any text is read as what it encodes. -/
theorem pathText_paramEnv (enc : List UInt8) (text : String) (h : decode enc = utf8 text.toList) :
    paramEnv.pathText enc = .ok text := by
  have hlossy : fromUtf8Lossy (decode enc) = text := by rw [h, fromUtf8Lossy_utf8]
  show (if utf8 (fromUtf8Lossy (decode enc)).toList = decode enc then
    Except.ok (fromUtf8Lossy (decode enc)) else .error (Reply.rejected 400 "")) = .ok text
  rw [hlossy, if_pos h.symm]

theorem start_button_iff_quoted : StartsModel paramEnv quotedRequest quotedModel.id := by
  obtain ⟨_, hrow⟩ := modelRow_eq Panel.londonHost .undefined paramEnv.printable .new quotedModel
  have hkept : KeptInDocument quotedModel.id.toList := by decide
  refine (start_button_iff standard_readRefs rfl hkept pathText_paramEnv hrow
    (clickPath_modelRow standard_readRefs rfl hkept hrow) ⟨rfl, rfl, ?_⟩).mpr ?_
  · decide
  · decide

end LlmCtl
