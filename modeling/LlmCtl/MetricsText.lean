/-
# The metrics of the worker (`supervisor.rs`)

The worker reports its metrics in a text format: lines with samples, comments and blank lines.  A
sample is a name, with labels perhaps, a value and perhaps a timestamp, with blanks in between; a
label may hold any text in quotes.

`parse_metrics` splits a line at the first white space, and takes what follows for the value.  So
it reads a sample only if there is no other white space in it.
-/
import LlmCtl.FloatText
import LlmCtl.OrderedMap
import LlmCtl.StreamCollector
import Mathlib.Data.String.Basic

namespace LlmCtl

/-! ## `parse_metrics` -/

/-- `str::split_once` at a character: what stands before the first such character, and after
it. -/
def splitOnce (p : Char → Bool) (s : List Char) : Option (List Char × List Char) :=
  match s.dropWhile fun c => !p c with
  | [] => none
  | _ :: rest => some (s.takeWhile fun c => !p c, rest)

/-- `json!` of a double: what is no number becomes null. -/
def jsonOfF64 : F64 → Json
  | .finite q => .float q
  | _ => .null

/-- One turn of the loop of `parse_metrics`: the entry that a line makes. -/
def metricOf (line : List Char) : Option (String × F64) :=
  let line := (trim (String.ofList line)).toList
  if line.isEmpty || line.head? == some '#' then none
  else
    (splitOnce isWhiteSpace line).bind fun p =>
      (parseF64 p.2).map fun f => (String.ofList p.1, f)

/-- The map that `parse_metrics` builds. -/
def metricsMap (text : String) : OrderedMap String Json :=
  OrderedMap.empty.insertAll
    (((strLines text.toList).filterMap metricOf).map fun e => (e.1, jsonOfF64 e.2))

/-- **`parse_metrics`.** -/
def parseMetrics (text : String) : Json := .obj (metricsMap text).entries

/-! ## The text format -/

/-- A run of spaces and tabs. -/
structure Blanks where
  chars : List Char
  blank : (chars.all fun c => c == ' ' || c == '\t') = true

/-- A character of a name; the name of a metric may have colons. -/
def isNameChar (colons : Bool) (c : Char) : Bool :=
  c.isAlphanum || c == '_' || (colons && c == ':')

/-- A name: it does not begin with a digit. -/
def isName (colons : Bool) : List Char → Bool
  | [] => false
  | c :: cs => !c.isDigit && (c :: cs).all (isNameChar colons)

/-- A character in the text of a label; quotes, backslashes and line feeds are escaped. -/
inductive LabelChar where
  | plain (c : Char) (h : c ≠ '"' ∧ c ≠ '\\' ∧ c ≠ '\n')
  | escaped (c : Char) (h : c = '"' ∨ c = '\\' ∨ c = 'n')

def LabelChar.render : LabelChar → List Char
  | .plain c _ => [c]
  | .escaped c _ => ['\\', c]

/-- A label. -/
structure MetricLabel where
  name : List Char
  named : isName false name = true
  text : List LabelChar

def MetricLabel.render (l : MetricLabel) : List Char :=
  l.name ++ '=' :: '"' :: (l.text.flatMap LabelChar.render ++ ['"'])

/-- A timestamp, with the blanks before it. -/
structure Timestamp where
  gap : Blanks
  parted : gap.chars ≠ []
  digits : List Char
  number : isDigits (takeSign digits).2 = true

/-- A sample: the blanks of its line are part of it. -/
structure MetricSample where
  lead : Blanks
  name : List Char
  named : isName true name = true
  labels : Option (List MetricLabel)
  gap : Blanks
  parted : gap.chars ≠ []
  value : List Char
  number : F64
  decoded : parseF64 value = some number
  timestamp : Option Timestamp
  trail : Blanks

namespace MetricSample

variable (s : MetricSample)

/-- The labels in their braces. -/
def labelList : List Char :=
  match s.labels with
  | none => []
  | some labels => '{' :: ([','].intercalate (labels.map MetricLabel.render) ++ ['}'])

/-- The name of the metric, with its labels. -/
def series : List Char := s.name ++ s.labelList

/-- What follows the value. -/
def stamp : List Char :=
  match s.timestamp with
  | none => []
  | some t => t.gap.chars ++ t.digits

/-- The sample, from the name on. -/
def core : List Char := s.series ++ (s.gap.chars ++ (s.value ++ s.stamp))

def render : List Char := s.lead.chars ++ (s.core ++ s.trail.chars)

/-- There is one white space in the sample, before the value. -/
def Plain : Prop :=
  (∀ c ∈ s.series, isWhiteSpace c = false) ∧ s.gap.chars.length = 1 ∧ s.timestamp = none

end MetricSample

/-- A line of the format. -/
inductive MetricLine where
  | blank (b : Blanks)
  | comment (lead : Blanks) (text : List Char) (h : '\n' ∉ text)
  | sample (s : MetricSample)

namespace MetricLine

def render : MetricLine → List Char
  | .blank b => b.chars
  | .comment lead text _ => lead.chars ++ '#' :: text
  | .sample s => s.render

def sample? : MetricLine → Option MetricSample
  | .sample s => some s
  | _ => none

end MetricLine

/-- A text in the format: every line is terminated. -/
def metricsText (doc : List MetricLine) : String :=
  String.ofList (doc.flatMap fun l => l.render ++ ['\n'])

/-- The samples of a text, in order. -/
def samplesOf (doc : List MetricLine) : List MetricSample := doc.filterMap MetricLine.sample?

/-- What the samples say, one after another. -/
def reported (doc : List MetricLine) : List (String × F64) :=
  (samplesOf doc).map fun s => (String.ofList s.series, s.number)

/-! ## Splitting a line -/

theorem splitOnce_append {p : Char → Bool} {front : List Char} (h : ∀ c ∈ front, p c = false)
    {w : Char} (hw : p w = true) (rest : List Char) :
    splitOnce p (front ++ w :: rest) = some (front, rest) := by
  have hnot : ∀ c ∈ front, (fun c => !p c) c = true := fun c hc => by simp [h c hc]
  have hdrop : (front ++ w :: rest).dropWhile (fun c => !p c) = w :: rest := by
    rw [List.dropWhile_append_of_pos hnot, List.dropWhile_cons_of_neg (by simp [hw])]
  have htake : (front ++ w :: rest).takeWhile (fun c => !p c) = front := by
    rw [List.takeWhile_append_of_pos hnot, List.takeWhile_cons_of_neg (by simp [hw]),
      List.append_nil]
  simp only [splitOnce, hdrop, htake]

/-- The first character of a kind. -/
theorem exists_first {p : Char → Bool} {s : List Char} (h : ¬ ∀ c ∈ s, p c = false) :
    ∃ front w rest, s = front ++ w :: rest ∧ (∀ c ∈ front, p c = false) ∧ p w = true := by
  induction s with
  | nil => exact absurd (fun c hc => absurd hc List.not_mem_nil) h
  | cons d s ih =>
    cases hd : p d with
    | true => exact ⟨[], d, s, rfl, fun c hc => absurd hc List.not_mem_nil, hd⟩
    | false =>
      obtain ⟨front, w, rest, rfl, hfront, hw⟩ :=
        ih fun hall => h (List.forall_mem_cons.mpr ⟨hd, hall⟩)
      exact ⟨d :: front, w, rest, rfl, List.forall_mem_cons.mpr ⟨hd, hfront⟩, hw⟩

theorem parseF64_eq_none {s : List Char} {c : Char} (hc : c ∈ s) (hw : isWhiteSpace c = true) :
    parseF64 s = none := by
  by_contra hne
  obtain ⟨v, hv⟩ := Option.ne_none_iff_exists'.mp hne
  rw [not_whiteSpace_of_parseF64 hv c hc] at hw
  exact absurd hw Bool.false_ne_true

/-- What is not empty, and without white space, ends with such a character. -/
theorem exists_last {s : List Char} (hne : s ≠ []) (h : ∀ c ∈ s, isWhiteSpace c = false) :
    ∃ front e, s = front ++ [e] ∧ isWhiteSpace e = false := by
  refine ⟨s.dropLast, s.getLast hne, (List.dropLast_concat_getLast hne).symm, ?_⟩
  exact h _ (List.getLast_mem hne)

/-- What stands in a list of parts stands in one of them, or separates them. -/
theorem mem_of_mem_intercalate {c : Char} {sep : List Char} {parts : List (List Char)}
    (h : c ∈ sep.intercalate parts) : c ∈ sep ∨ ∃ part ∈ parts, c ∈ part := by
  induction parts with
  | nil => exact absurd h List.not_mem_nil
  | cons part parts ih =>
    by_cases hnil : parts = []
    · subst hnil
      exact .inr ⟨part, List.mem_cons_self, by simpa using h⟩
    · rw [List.intercalate_cons_of_ne_nil hnil, List.mem_append, List.mem_append] at h
      rcases h with (h | h) | h
      · exact .inr ⟨part, List.mem_cons_self, h⟩
      · exact .inl h
      · exact (ih h).imp_right fun ⟨p, hp, hc⟩ => ⟨p, List.mem_cons_of_mem _ hp, hc⟩

/-! ## The parts of a sample -/

theorem Blanks.space_or_tab (b : Blanks) {c : Char} (hc : c ∈ b.chars) : c = ' ' ∨ c = '\t' := by
  have h := List.all_eq_true.mp b.blank c hc
  simpa using h

theorem Blanks.white (b : Blanks) : ∀ c ∈ b.chars, isWhiteSpace c = true := by
  intro c hc
  rcases b.space_or_tab hc with rfl | rfl <;> rfl

theorem Blanks.no_feed (b : Blanks) : '\n' ∉ b.chars := fun hc => by
  rcases b.space_or_tab hc with h | h
  · exact absurd h (by decide)
  · exact absurd h (by decide)

/-- Letters and digits. -/
theorem toNat_of_isAlphanum {c : Char} (h : c.isAlphanum = true) :
    48 ≤ c.toNat ∧ c.toNat ≤ 122 := by
  have hsplit : ((c.isUpper || c.isLower) || c.isDigit) = true := h
  rw [Bool.or_eq_true, Bool.or_eq_true] at hsplit
  rcases hsplit with (hupper | hlower) | hdigit
  · obtain ⟨hlow, hhigh⟩ : c.val ≥ 'A'.val ∧ c.val ≤ 'Z'.val := of_decide_eq_true hupper
    have hlow' : 65 ≤ c.toNat := UInt32.le_iff_toNat_le.mp hlow
    have hhigh' : c.toNat ≤ 90 := UInt32.le_iff_toNat_le.mp hhigh
    omega
  · obtain ⟨hlow, hhigh⟩ := Bool.and_eq_true_iff.mp hlower
    have hlow' : 97 ≤ c.toNat := UInt32.le_iff_toNat_le.mp (of_decide_eq_true hlow)
    have hhigh' : c.toNat ≤ 122 := UInt32.le_iff_toNat_le.mp (of_decide_eq_true hhigh)
    omega
  · have hrange := toNat_of_isDigit hdigit
    omega

/-- Names are made of printable ASCII characters. -/
theorem toNat_of_isNameChar {colons : Bool} {c : Char} (h : isNameChar colons c = true) :
    48 ≤ c.toNat ∧ c.toNat ≤ 122 := by
  simp only [isNameChar, Bool.or_eq_true, Bool.and_eq_true, beq_iff_eq] at h
  rcases h with (h | rfl) | ⟨-, rfl⟩
  · exact toNat_of_isAlphanum h
  · decide
  · decide

/-- A name is not empty. -/
theorem exists_of_isName {colons : Bool} {name : List Char} (h : isName colons name = true) :
    (∃ c cs, name = c :: cs) ∧ ∀ c ∈ name, 48 ≤ c.toNat ∧ c.toNat ≤ 122 := by
  cases name with
  | nil => exact absurd h Bool.false_ne_true
  | cons c cs =>
    rw [isName, Bool.and_eq_true, List.all_eq_true] at h
    exact ⟨⟨c, cs, rfl⟩, fun d hd => toNat_of_isNameChar (h.2 d hd)⟩

theorem no_feed_of_isName {colons : Bool} {name : List Char} (h : isName colons name = true) :
    '\n' ∉ name := fun hc => absurd ((exists_of_isName h).2 _ hc).1 (by decide)

theorem MetricLabel.no_feed (l : MetricLabel) : '\n' ∉ l.render := by
  have htext : '\n' ∉ l.text.flatMap LabelChar.render := by
    intro hc
    obtain ⟨p, -, hp⟩ := List.mem_flatMap.mp hc
    cases p with
    | plain c h => exact h.2.2 (List.mem_singleton.mp hp).symm
    | escaped c h =>
      rcases List.mem_pair.mp hp with hp | rfl
      · exact absurd hp (by decide)
      · exact absurd h (by decide)
  simp only [MetricLabel.render, List.mem_append, List.mem_cons, List.not_mem_nil, or_false]
  rintro (h | h | h | h | h)
  · exact no_feed_of_isName l.named h
  · exact absurd h (by decide)
  · exact absurd h (by decide)
  · exact htext h
  · exact absurd h (by decide)

namespace MetricSample

variable (s : MetricSample)

theorem value_ne_nil : s.value ≠ [] := by
  intro h
  have hdecoded := s.decoded
  rw [h] at hdecoded
  exact absurd hdecoded (by simp [show parseF64 [] = none from by decide])

theorem value_not_white : ∀ c ∈ s.value, isWhiteSpace c = false :=
  not_whiteSpace_of_parseF64 s.decoded

theorem series_eq : ∃ c rest, s.series = c :: rest ∧ 48 ≤ c.toNat ∧ c.toNat ≤ 122 := by
  obtain ⟨⟨c, cs, hname⟩, hrange⟩ := exists_of_isName s.named
  refine ⟨c, cs ++ s.labelList, ?_, hrange c (by rw [hname]; exact List.mem_cons_self)⟩
  rw [series, hname, List.cons_append]

/-- A sample does not end with white space. -/
theorem core_end : ∃ front e, s.core = front ++ [e] ∧ isWhiteSpace e = false := by
  unfold core stamp
  split
  · obtain ⟨front, e, hvalue, he⟩ := exists_last s.value_ne_nil s.value_not_white
    refine ⟨s.series ++ (s.gap.chars ++ front), e, ?_, he⟩
    simp only [hvalue, List.append_assoc, List.append_nil]
  · next t ht =>
    have hdigits := not_whiteSpace_of_takeSign (not_whiteSpace_of_isDigits t.number)
    have hne : t.digits ≠ [] := by
      intro hnil
      have hnumber := t.number
      rw [hnil] at hnumber
      exact absurd hnumber (by decide)
    obtain ⟨front, e, hlast, he⟩ := exists_last hne hdigits
    refine ⟨s.series ++ (s.gap.chars ++ (s.value ++ (t.gap.chars ++ front))), e, ?_, he⟩
    simp only [hlast, List.append_assoc]

/-- There is no line feed in a sample. -/
theorem no_feed : '\n' ∉ s.render := by
  have hlabels : '\n' ∉ s.labelList := by
    unfold labelList
    split
    · exact List.not_mem_nil
    · simp only [List.mem_append, List.mem_cons, List.not_mem_nil, or_false]
      rintro (h | h | h)
      · exact absurd h (by decide)
      · rcases mem_of_mem_intercalate h with h | ⟨l, hl, hc⟩
        · exact absurd h (by decide)
        · obtain ⟨label, -, rfl⟩ := List.mem_map.mp hl
          exact label.no_feed hc
      · exact absurd h (by decide)
  have hvalue : '\n' ∉ s.value := fun hc => absurd (s.value_not_white _ hc) (by decide)
  have hstamp : '\n' ∉ s.stamp := by
    unfold stamp
    split
    · exact List.not_mem_nil
    · next t _ =>
      rintro hc
      rcases List.mem_append.mp hc with hc | hc
      · exact t.gap.no_feed hc
      · exact absurd (not_whiteSpace_of_takeSign (not_whiteSpace_of_isDigits t.number) _ hc)
          (by decide)
  simp only [render, core, series, List.mem_append, not_or]
  exact ⟨s.lead.no_feed, ⟨⟨no_feed_of_isName s.named, hlabels⟩, s.gap.no_feed, hvalue, hstamp⟩,
    s.trail.no_feed⟩

/-- The blanks around a sample are trimmed off. -/
theorem trim_render : trim (String.ofList s.render) = String.ofList s.core := by
  obtain ⟨c, rest, hseries, hrange⟩ := s.series_eq
  obtain ⟨front, e, hend, he⟩ := s.core_end
  have hhead : s.core = c :: (rest ++ (s.gap.chars ++ (s.value ++ s.stamp))) := by
    rw [core, hseries]
    rfl
  rw [render, trim_append_left s.lead.white, trim_append_right _ s.trail.white]
  exact trim_eq_self (by rw [String.toList_ofList]; exact hhead)
    (by rw [String.toList_ofList]; exact hend)
    (not_whiteSpace_of_toNat (by omega) (by omega)) he

/-- A sample is split at the first white space. -/
theorem metricOf_render :
    metricOf s.render = (splitOnce isWhiteSpace s.core).bind fun p =>
      (parseF64 p.2).map fun f => (String.ofList p.1, f) := by
  obtain ⟨c, rest, hseries, hrange⟩ := s.series_eq
  have hhead : s.core = c :: (rest ++ (s.gap.chars ++ (s.value ++ s.stamp))) := by
    rw [core, hseries]
    rfl
  have hmark : c ≠ '#' := by
    rintro rfl
    exact absurd hrange.1 (by decide)
  rw [metricOf, s.trim_render, String.toList_ofList]
  refine if_neg ?_
  rw [hhead]
  simpa using hmark

/-- A sample with one white space is read. -/
theorem metricOf_of_plain (h : s.Plain) :
    metricOf s.render = some (String.ofList s.series, s.number) := by
  obtain ⟨hseries, hgap, hstamp⟩ := h
  obtain ⟨w, hw⟩ := List.length_eq_one_iff.mp hgap
  have hwhite : isWhiteSpace w = true := s.gap.white w (by rw [hw]; exact List.mem_cons_self)
  have hcore : s.core = s.series ++ w :: s.value := by
    rw [core, hw, stamp, hstamp, List.append_nil, List.singleton_append]
  rw [metricOf_render, hcore, splitOnce_append hseries hwhite, Option.bind_some, s.decoded,
    Option.map_some]

/-- A sample with more white space is dropped. -/
theorem metricOf_of_not_plain (h : ¬ s.Plain) : metricOf s.render = none := by
  obtain ⟨w, gap, hgap⟩ := List.exists_cons_of_ne_nil s.parted
  have hwhite := s.gap.white
  rw [hgap] at hwhite
  obtain ⟨hw, hgapwhite⟩ := List.forall_mem_cons.mp hwhite
  rw [metricOf_render]
  by_cases hseries : ∀ c ∈ s.series, isWhiteSpace c = false
  · -- The split is before the value, and there is white space left.
    have hcore : s.core = s.series ++ w :: (gap ++ (s.value ++ s.stamp)) := by
      rw [core, hgap, List.cons_append]
    have hmore : ∃ c ∈ gap ++ (s.value ++ s.stamp), isWhiteSpace c = true := by
      cases gap with
      | cons d gap => exact ⟨d, List.mem_cons_self, hgapwhite d List.mem_cons_self⟩
      | nil =>
        cases ht : s.timestamp with
        | none => exact absurd ⟨hseries, by rw [hgap]; rfl, ht⟩ h
        | some t =>
          obtain ⟨d, tgap, htgap⟩ := List.exists_cons_of_ne_nil t.parted
          have hd : d ∈ t.gap.chars := by
            rw [htgap]
            exact List.mem_cons_self
          refine ⟨d, ?_, t.gap.white d hd⟩
          rw [stamp, ht]
          exact List.mem_append_right _ (List.mem_append_right _ (List.mem_append_left _ hd))
    obtain ⟨c, hc, hcw⟩ := hmore
    rw [hcore, splitOnce_append hseries hw, Option.bind_some, parseF64_eq_none hc hcw,
      Option.map_none]
  · -- The split is in a label, and the blank before the value is left.
    obtain ⟨front, v, rest, heq, hfront, hv⟩ := exists_first hseries
    have hcore : s.core = front ++ v :: (rest ++ (s.gap.chars ++ (s.value ++ s.stamp))) := by
      rw [core, heq, List.append_assoc, List.cons_append]
    have hc : w ∈ rest ++ (s.gap.chars ++ (s.value ++ s.stamp)) := by
      rw [hgap]
      exact List.mem_append_right _ (List.mem_append_left _ List.mem_cons_self)
    rw [hcore, splitOnce_append hfront hv, Option.bind_some, parseF64_eq_none hc hw,
      Option.map_none]

end MetricSample

/-! ## The whole text -/

/-- What a line of the format makes. -/
theorem metricOf_line (l : MetricLine) :
    metricOf l.render = l.sample?.bind fun s => metricOf s.render := by
  cases l with
  | blank b =>
    have htrim : trim (String.ofList b.chars) = trim (String.ofList []) := by
      rw [← trim_append_left b.white [], List.append_nil]
    show metricOf b.chars = none
    simp only [metricOf, htrim]
    rfl
  | comment lead text h =>
    obtain ⟨rest, hrest⟩ := trim_cons (c := '#') (by decide) text
    show metricOf (lead.chars ++ '#' :: text) = none
    simp only [metricOf, trim_append_left lead.white, hrest, String.toList_ofList]
    rfl
  | sample s => rw [MetricLine.render, MetricLine.sample?, Option.bind_some]

theorem no_feed_of_line (l : MetricLine) : '\n' ∉ l.render := by
  cases l with
  | blank b => exact b.no_feed
  | comment lead text h =>
    simp only [MetricLine.render, List.mem_append, List.mem_cons, not_or]
    exact ⟨lead.no_feed, by decide, h⟩
  | sample s => exact s.no_feed

/-- The entries that the lines of a text make are those of its samples. -/
theorem entries_of_text (doc : List MetricLine) :
    (strLines (metricsText doc).toList).filterMap metricOf =
      (samplesOf doc).filterMap fun s => metricOf s.render := by
  have hfeed : ∀ line ∈ doc.map MetricLine.render, '\n' ∉ line := by
    intro line hline
    obtain ⟨l, -, rfl⟩ := List.mem_map.mp hline
    exact no_feed_of_line l
  have hlines := strLines_of_terminated hfeed
  rw [List.flatMap_map] at hlines
  have hending (l : MetricLine) :
      metricOf (stripEnding (l.render ++ ['\n'])) = metricOf l.render := by
    rw [metricOf, trim_stripEnding, metricOf]
  rw [metricsText, String.toList_ofList, hlines, List.map_map, List.filterMap_map, samplesOf,
    List.filterMap_filterMap]
  refine List.filterMap_congr fun l _ => ?_
  rw [Function.comp_apply, Function.comp_apply, hending, metricOf_line]

/-- The entry of a JSON object. -/
theorem get?_obj (m : OrderedMap String Json) (key : String) :
    (Json.obj m.entries).get? key = m.get? key := by
  rw [Json.get?, OrderedMap.get?]
  induction m.entries with
  | nil => rfl
  | cons e es ih =>
    rw [OrderedMap.valueOf]
    by_cases he : e.1 = key
    · rw [if_pos he, List.find?_cons_of_pos (by simpa using he)]
      rfl
    · rw [if_neg he, List.find?_cons_of_neg (by simpa using he)]
      exact ih

/-- The entry is the number that was reported, or there is none. -/
def Holds (entry : Option Json) : Option F64 → Prop
  | none => entry = none
  | some (.finite q) => entry = some (.float q)
  | some _ => False

/-- What is read of a text in the format: every sample, under its name with its labels; one entry
for each of these; and in it the value of the last sample. -/
structure ReadsMetrics (doc : List MetricLine) : Prop where
  kept : ∀ s ∈ samplesOf doc, metricOf s.render = some (String.ofList s.series, s.number)
  unique : ∃ fields, parseMetrics (metricsText doc) = .obj fields ∧ (fields.map Prod.fst).Nodup
  last : ∀ series, Holds ((parseMetrics (metricsText doc)).get? series)
    (OrderedMap.lastOf (reported doc) series)

/-- A value is a number. -/
def F64.IsFinite : F64 → Prop
  | .finite _ => True
  | _ => False

/-- Only a number is held. -/
theorem holds_jsonOfF64 (v : Option F64) :
    Holds (v.map jsonOfF64) v ↔ ∀ f, v = some f → f.IsFinite := by
  match v with
  | none => exact iff_of_true rfl fun f hf => absurd hf (by simp)
  | some (.finite q) =>
    refine iff_of_true rfl fun f hf => ?_
    obtain rfl := Option.some.inj hf
    trivial
  | some .nan => exact iff_of_false id fun h => h _ rfl
  | some (.inf n) => exact iff_of_false id fun h => h _ rfl

/-- If every sample is read, the map holds the last values. -/
theorem get?_parseMetrics {doc : List MetricLine}
    (h : ∀ s ∈ samplesOf doc, metricOf s.render = some (String.ofList s.series, s.number))
    (series : String) :
    (parseMetrics (metricsText doc)).get? series =
      (OrderedMap.lastOf (reported doc) series).map jsonOfF64 := by
  have hentries : (strLines (metricsText doc).toList).filterMap metricOf = reported doc := by
    rw [entries_of_text, reported, ← List.filterMap_eq_map]
    exact List.filterMap_congr h
  rw [parseMetrics, get?_obj, metricsMap, hentries, OrderedMap.get?_insertAll_empty,
    OrderedMap.lastOf_map]

/-- **A text in the format is read just if its samples have one white space each, before their
values, and the last value under each name is a number.** -/
theorem reads_metrics_iff (doc : List MetricLine) :
    ReadsMetrics doc ↔ (∀ s ∈ samplesOf doc, s.Plain) ∧
      ∀ series f, OrderedMap.lastOf (reported doc) series = some f → f.IsFinite := by
  have hplain : (∀ s ∈ samplesOf doc, metricOf s.render = some (String.ofList s.series, s.number))
      ↔ ∀ s ∈ samplesOf doc, s.Plain := by
    refine forall₂_congr fun s _ => ⟨fun hkept => ?_, s.metricOf_of_plain⟩
    by_contra hnot
    rw [s.metricOf_of_not_plain hnot] at hkept
    exact absurd hkept (by simp)
  constructor
  · rintro ⟨hkept, -, hlast⟩
    refine ⟨hplain.mp hkept, fun series => ?_⟩
    have hholds := hlast series
    rw [get?_parseMetrics hkept] at hholds
    exact (holds_jsonOfF64 _).mp hholds
  · rintro ⟨hall, hfinite⟩
    have hkept := hplain.mpr hall
    refine ⟨hkept, ⟨(metricsMap (metricsText doc)).entries, rfl, ?_⟩, fun series => ?_⟩
    · exact OrderedMap.nodup_keys _
    · rw [get?_parseMetrics hkept]
      exact (holds_jsonOfF64 _).mpr (hfinite series)

/-- A sample with a blank in the text of its label. -/
def blankLabel : MetricSample where
  lead := ⟨[], rfl⟩
  name := "requests".toList
  named := by decide
  labels := some [⟨"model".toList, by decide, [.plain 'a' (by decide), .plain ' ' (by decide)]⟩]
  gap := ⟨[' '], rfl⟩
  parted := by decide
  value := ['1']
  number := .finite 1
  decoded := by decide +kernel
  timestamp := none
  trail := ⟨[], rfl⟩

/-- Such a sample is dropped. -/
theorem blank_label_dropped : ¬ ∀ doc, ReadsMetrics doc := fun h => by
  have hkept := (h [.sample blankLabel]).kept blankLabel List.mem_cons_self
  have hnone : metricOf blankLabel.render = none := by decide
  rw [hnone] at hkept
  exact absurd hkept (by simp)

end LlmCtl
