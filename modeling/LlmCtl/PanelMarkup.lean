/-
# The markup of the panel (`web/assets/app.js`)

Whatever the panel fills into a text that becomes markup is escaped, a number or a date, or one of
its own words.  So the characters that make markup are those of its templates: each item of a list
adds those of the template of a row, whatever the texts and the numbers of the item are.
-/
import LlmCtl.JsShape
import LlmCtl.Panel
import LlmCtl.PanelPayload
import Mathlib.Tactic.Common

namespace LlmCtl

namespace Panel

open Js TextTemplate

/-! ## Markup -/

/-- The characters that make markup. -/
def isMarkup (c : Char) : Bool := c == '<' || c == '>' || c == '"'

/-- Numbers and dates are shown without markup. -/
structure PlainHost (host : Host) : Prop where
  text : ∀ x, Inert isMarkup (host.text x).toList
  toFixed : ∀ x, Inert isMarkup (host.toFixed x).toList
  localeString : ∀ x, Inert isMarkup (host.localeString x).toList

theorem inert_escChar (c : Char) : Inert isMarkup (escChar c) := by
  rw [escChar]
  split
  · decide
  split
  · decide
  split
  · decide
  split
  · decide
  split
  · decide
  · next hlt hgt hquot _ =>
    intro d hd
    obtain rfl := List.mem_singleton.mp hd
    simp [isMarkup, hlt, hgt, hquot]

section Rows

variable {host : Host}

/-- **What is escaped has no markup.** -/
theorem inert_esc {v : Js} {s : String} (h : esc host v = .ok s) : Inert isMarkup s.toList := by
  rw [esc] at h
  cases hs : (v.nullish (Js.text "")).string host with
  | error e =>
    rw [hs] at h
    exact nomatch h
  | ok t =>
    rw [hs] at h
    obtain rfl := Except.ok.inj h
    rw [String.toList_ofList]
    exact inert_escape inert_escChar t.toList

theorem inert_asInt (hplain : PlainHost host) (v : Js) :
    Inert isMarkup (asInt host v).toList := by
  rw [asInt]
  split
  · exact hplain.text _
  · decide

theorem inert_asFloat (hplain : PlainHost host) (v : Js) :
    Inert isMarkup (asFloat host v).toList := by
  rw [asFloat]
  split
  · exact hplain.toFixed _
  · decide

theorem inert_toFixed (hplain : PlainHost host) {v : Js} {s : String}
    (h : v.toFixed host = .ok s) : Inert isMarkup s.toList := by
  cases v with
  | undefined => exact nomatch h
  | json j =>
    cases j with
    | int n => exact Except.ok.inj h ▸ hplain.toFixed _
    | float q => exact Except.ok.inj h ▸ hplain.toFixed _
    | null => exact nomatch h
    | bool b => exact nomatch h
    | str t => exact nomatch h
    | arr vs => exact nomatch h
    | obj fields => exact nomatch h

/-- What the panel says itself has no markup. -/
theorem inert_words : ∀ word ∈ ["text-lime", "text-text", " ★", "", "stop", "start",
    "border-red text-red hover:bg-red hover:text-black",
    "border-lime text-lime hover:bg-lime hover:text-black", "text-magenta", "text-red", "ok",
    "failed"], Inert isMarkup word.toList := by decide

/-! ## The rows -/

theorem literals_modelHtml (isActive : Bool) (name about : String) :
    literals (modelHtml isActive name about) = literals (modelHtml false "" "") := rfl

theorem literals_sessionHtml (id model requests prompt completion cls pct : String) :
    literals (sessionHtml id model requests prompt completion cls pct)
      = literals (sessionHtml "" "" "" "" "" "" "") := rfl

theorem literals_buildHtml (ok : Bool) (t before after : String) :
    literals (buildHtml ok t before after) = literals (buildHtml false "" "" "") := rfl

theorem literals_optionHtml (path size : String) :
    literals (optionHtml path size) = literals (optionHtml "" "") := rfl

/-- One of two words. -/
theorem inert_choice {c : Bool} {a b : String} (ha : Inert isMarkup a.toList)
    (hb : Inert isMarkup b.toList) : Inert isMarkup (if c then a else b).toList := by
  cases c
  · exact hb
  · exact ha

theorem holesInert_modelHtml (isActive : Bool) {name about : String}
    (hname : Inert isMarkup name.toList) (habout : Inert isMarkup about.toList) :
    HolesInert isMarkup (modelHtml isActive name about) := by
  have hlime := inert_words "text-lime" (by simp)
  have htext := inert_words "text-text" (by simp)
  have hstar := inert_words " ★" (by simp)
  have hempty := inert_words "" (by simp)
  have hstop := inert_words "stop" (by simp)
  have hstart := inert_words "start" (by simp)
  have hred := inert_words "border-red text-red hover:bg-red hover:text-black" (by simp)
  have hgreen := inert_words "border-lime text-lime hover:bg-lime hover:text-black" (by simp)
  simp only [modelHtml, HolesInert, List.forall_mem_cons, PartInert, lit, fill, true_and]
  exact ⟨inert_choice hlime htext, hname, inert_choice hstar hempty, habout,
    inert_choice hstop hstart, hname, inert_choice hred hgreen, inert_choice hstop hstart,
    holesInert_nil⟩

theorem holesInert_sessionHtml {id model requests prompt completion cls pct : String}
    (hid : Inert isMarkup id.toList) (hmodel : Inert isMarkup model.toList)
    (hrequests : Inert isMarkup requests.toList) (hprompt : Inert isMarkup prompt.toList)
    (hcompletion : Inert isMarkup completion.toList) (hcls : Inert isMarkup cls.toList)
    (hpct : Inert isMarkup pct.toList) :
    HolesInert isMarkup (sessionHtml id model requests prompt completion cls pct) := by
  simp only [sessionHtml, HolesInert, List.forall_mem_cons, PartInert, lit, fill, true_and]
  exact ⟨hid, hmodel, hrequests, hprompt, hcompletion, hcls, hpct, holesInert_nil⟩

theorem holesInert_buildHtml (ok : Bool) {t before after : String}
    (ht : Inert isMarkup t.toList) (hbefore : Inert isMarkup before.toList)
    (hafter : Inert isMarkup after.toList) :
    HolesInert isMarkup (buildHtml ok t before after) := by
  have hlime := inert_words "text-lime" (by simp)
  have hred := inert_words "text-red" (by simp)
  have hok := inert_words "ok" (by simp)
  have hfailed := inert_words "failed" (by simp)
  simp only [buildHtml, HolesInert, List.forall_mem_cons, PartInert, lit, fill, true_and]
  exact ⟨inert_choice hlime hred, ht, hbefore, hafter, inert_choice hok hfailed, holesInert_nil⟩

theorem holesInert_optionHtml {path size : String} (hpath : Inert isMarkup path.toList)
    (hsize : Inert isMarkup size.toList) : HolesInert isMarkup (optionHtml path size) := by
  simp only [optionHtml, HolesInert, List.forall_mem_cons, PartInert, lit, fill, true_and]
  exact ⟨hpath, hpath, hsize, holesInert_nil⟩

/-- What can be shown can be escaped. -/
theorem scalar_esc (host : Host) {v : Js} (h : Scalar v) :
    ∃ t, esc host v = .ok t ∧ Inert isMarkup t.toList := by
  have hempty : Scalar (Js.text "") := trivial
  obtain ⟨t, ht⟩ := (h.nullish hempty).string host
  have hesc : Panel.esc host v = .ok (String.ofList (escape escChar t.toList)) := by
    rw [Panel.esc, ht]
    rfl
  exact ⟨_, hesc, inert_esc hesc⟩

/-! ## The rows of a reply -/

/-- A row of a template, with nothing filled in that makes markup. -/
def IsRow (template : List (TemplatePart Char))
    (row : Except Thrown (List (TemplatePart Char))) : Prop :=
  ∃ ps, row = .ok ps ∧ literals ps = literals template ∧ HolesInert isMarkup ps

/-- **The row of a model**, whatever is in it. -/
theorem modelRow_spec (host : Host) (active : Js) {m : Json} (h : modelShape.Fits m) :
    IsRow (modelHtml false "" "") (modelRow host active m) := by
  obtain ⟨id, hid, hidfits⟩ := get_record h "id" .text (by simp)
  obtain ⟨description, hdescription, hdescfits⟩ := get_record h "description" .text (by simp)
  obtain ⟨model, hmodel, hmodelfits⟩ := get_record h "model" .text (by simp)
  obtain ⟨name, hname, hnameinert⟩ := scalar_esc host (scalar_text hidfits)
  obtain ⟨about, habout, haboutinert⟩ :=
    scalar_esc host ((scalar_text hdescfits).orElse (scalar_text hmodelfits))
  refine ⟨modelHtml ((Js.json id).strictEq active) name about, ?_, literals_modelHtml _ _ _,
    holesInert_modelHtml _ hnameinert haboutinert⟩
  exact (bind_ok hid _).trans <| (bind_ok hdescription _).trans <| (bind_ok hmodel _).trans <|
    (bind_ok hname _).trans <| (bind_ok habout _).trans rfl

/-- The rate of a session can be shown as a number. -/
theorem toFixed_ok (host : Host) {v : Json} (h : (JsonShape.orNull .number).Fits v) :
    ∃ t, ((Js.json v).orElse (.json (.int 0))).toFixed host = .ok t := by
  rw [Js.orElse]
  split
  · next htrue =>
    rcases h with rfl | ⟨n, rfl⟩ | ⟨q, rfl⟩
    · exact absurd htrue Bool.false_ne_true
    · exact ⟨_, rfl⟩
    · exact ⟨_, rfl⟩
  · exact ⟨_, rfl⟩

/-- **The row of a session.** -/
theorem sessionRow_spec (hplain : PlainHost host) {r : Json} (h : sessionShape.Fits r) :
    IsRow (sessionHtml "" "" "" "" "" "" "") (sessionRow host r) := by
  obtain ⟨rate, hrate, hratefits⟩ :=
    get_record h "cache_hit_pct" (.orNull .number) (by simp)
  obtain ⟨id, hid, hidfits⟩ := get_record h "id" .text (by simp)
  obtain ⟨model, hmodel, hmodelfits⟩ := get_record h "model" (.orNull .text) (by simp)
  obtain ⟨requests, hrequests, -⟩ := get_record h "requests" .number (by simp)
  obtain ⟨prompt, hprompt, -⟩ := get_record h "prompt_tokens" .number (by simp)
  obtain ⟨completion, hcompletion, -⟩ := get_record h "completion_tokens" .number (by simp)
  obtain ⟨name, hname, hnameinert⟩ := scalar_esc host (scalar_text hidfits)
  have hnone : Scalar (Js.text "") := trivial
  obtain ⟨shown, hshown, hshowninert⟩ :=
    scalar_esc host ((scalar_orNull (fun _ => scalar_text) hmodelfits).orElse hnone)
  obtain ⟨pct, hpct⟩ := toFixed_ok host hratefits
  have hcls : Inert isMarkup
      (if host.atLeast (host.number ((Js.json rate).orElse (.json (.int 0)))) 50 then "text-lime"
        else if host.atLeast (host.number ((Js.json rate).orElse (.json (.int 0)))) 20
          then "text-magenta" else "text-red").toList := by
    split
    · exact inert_words _ (by simp)
    · exact inert_choice (inert_words _ (by simp)) (inert_words _ (by simp))
  refine ⟨_, ?_, literals_sessionHtml _ _ _ _ _ _ _,
    holesInert_sessionHtml hnameinert hshowninert (inert_asInt hplain (.json requests))
      (inert_asInt hplain (.json prompt)) (inert_asInt hplain (.json completion)) hcls
      (inert_toFixed hplain hpct)⟩
  exact (bind_ok hrate _).trans <| (bind_ok hid _).trans <| (bind_ok hname _).trans <|
    (bind_ok hmodel _).trans <| (bind_ok hshown _).trans <| (bind_ok hrequests _).trans <|
    (bind_ok hprompt _).trans <| (bind_ok hcompletion _).trans <| (bind_ok hpct _).trans rfl

/-- **The row of a build.** -/
theorem buildRow_spec (hplain : PlainHost host) {b : Json} (h : buildShape.Fits b) :
    IsRow (buildHtml false "" "" "") (buildRow host b) := by
  obtain ⟨finished, hfinished, -⟩ := get_record h "at" (.orNull .number) (by simp)
  obtain ⟨ok, hok, -⟩ := get_record h "ok" .flag (by simp)
  obtain ⟨before, hbefore, hbeforefits⟩ := get_record h "before_sha" (.orNull .text) (by simp)
  obtain ⟨after, hafter, hafterfits⟩ := get_record h "after_sha" (.orNull .text) (by simp)
  have hdash : Scalar (Js.text "—") := trivial
  obtain ⟨first, hfirst, hfirstinert⟩ :=
    scalar_esc host ((scalar_orNull (fun _ => scalar_text) hbeforefits).orElse hdash)
  obtain ⟨last, hlast, hlastinert⟩ :=
    scalar_esc host ((scalar_orNull (fun _ => scalar_text) hafterfits).orElse hdash)
  have ht : Inert isMarkup (if (Js.json finished).truthy
      then host.localeString (host.number (Js.json finished)) else "").toList :=
    inert_choice (hplain.localeString _) (inert_words _ (by simp))
  refine ⟨_, ?_, literals_buildHtml _ _ _ _,
    holesInert_buildHtml (Js.json ok).truthy ht hfirstinert hlastinert⟩
  exact (bind_ok hfinished _).trans <| (bind_ok hok _).trans <| (bind_ok hbefore _).trans <|
    (bind_ok hfirst _).trans <| (bind_ok hafter _).trans <| (bind_ok hlast _).trans rfl

/-- **The option of a file.** -/
theorem fileOption_spec (hplain : PlainHost host) {f : Json} (h : fileShape.Fits f) :
    IsRow (optionHtml "" "") (fileOption host f) := by
  obtain ⟨path, hpath, hpathfits⟩ := get_record h "path" .text (by simp)
  obtain ⟨size, hsize, -⟩ := get_record h "size_mb" (.orNull .number) (by simp)
  obtain ⟨name, hname, hnameinert⟩ := scalar_esc host (scalar_text hpathfits)
  refine ⟨_, ?_, literals_optionHtml _ _,
    holesInert_optionHtml hnameinert (inert_asFloat hplain (.json size))⟩
  exact (bind_ok hpath _).trans <| (bind_ok hname _).trans <| (bind_ok hsize _).trans rfl

/-- **The rows of a list**: their markup is that of the template, once for each item. -/
theorem mapM_rows {template : List (TemplatePart Char)}
    {row : Json → Except Thrown (List (TemplatePart Char))} {s : JsonShape} {items : List Json}
    (hrow : ∀ i, s.Fits i → IsRow template (row i)) (hitems : ∀ i ∈ items, s.Fits i) :
    ∃ rows, items.mapM row = .ok rows ∧ HolesInert isMarkup rows.flatten ∧
      literals rows.flatten = (List.replicate items.length (literals template)).flatten := by
  have heach : ∃ rows, items.mapM row = .ok rows ∧ rows.length = items.length ∧
      ∀ ps ∈ rows, literals ps = literals template ∧ HolesInert isMarkup ps := by
    induction items with
    | nil => exact ⟨[], rfl, rfl, fun ps hps => absurd hps List.not_mem_nil⟩
    | cons i items ih =>
      obtain ⟨ps, hps, hrow⟩ := hrow i (hitems i List.mem_cons_self)
      obtain ⟨rows, hrows, hlength, hall⟩ := ih fun j hj => hitems j (List.mem_cons_of_mem i hj)
      refine ⟨ps :: rows, ?_, congrArg Nat.succ hlength, List.forall_mem_cons.mpr ⟨hrow, hall⟩⟩
      rw [List.mapM_cons]
      exact (bind_ok hps _).trans ((bind_ok hrows _).trans rfl)
  obtain ⟨rows, hrows, hlength, hall⟩ := heach
  refine ⟨rows, hrows, holesInert_flatten fun ps hps => (hall ps hps).2, ?_⟩
  rw [literals_flatten fun ps hps => (hall ps hps).1, hlength]

end Rows

end Panel

end LlmCtl
