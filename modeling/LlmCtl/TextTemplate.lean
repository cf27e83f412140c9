/-
# Texts with holes

A template is a text with holes, into which something is filled.  Some characters are marks, which
give the text its structure.

* `marks_text`: where nothing that is filled in has a mark, the marks of the text are those of the
  template, whatever is filled in;
* `inert_escape`: a text has no marks if each character was encoded by characters that are none;
* `literals_flatten`: rows of one template, one after the other.
-/
import Mathlib.Data.List.Basic
import Mathlib.Tactic.TypeStar

/-- A part of a filled template. -/
inductive TemplatePart (α : Type*) where
  /-- What the template says. -/
  | lit (t : List α)
  /-- What is filled in. -/
  | hole (t : List α)

namespace TextTemplate

variable {α : Type*} (mark : α → Bool)

/-! ## Marks -/

/-- The marks of a text, in order. -/
def marks (t : List α) : List α := t.filter mark

/-- A text without marks. -/
def Inert (t : List α) : Prop := ∀ c ∈ t, mark c = false

instance [DecidableEq α] (t : List α) : Decidable (Inert mark t) :=
  inferInstanceAs (Decidable (∀ c ∈ t, mark c = false))

theorem marks_append (s t : List α) : marks mark (s ++ t) = marks mark s ++ marks mark t :=
  List.filter_append ..

variable {mark} in
theorem marks_eq_nil {t : List α} (h : Inert mark t) : marks mark t = [] :=
  List.filter_eq_nil_iff.mpr fun c hc => by rw [h c hc]; exact Bool.false_ne_true

/-- Each character by its code. -/
def escape (code : α → List α) (t : List α) : List α := t.flatMap code

variable {mark} in
theorem Inert.append {s t : List α} (hs : Inert mark s) (ht : Inert mark t) :
    Inert mark (s ++ t) :=
  List.forall_mem_append.mpr ⟨hs, ht⟩

variable {mark} in
/-- **Codes without marks leave no marks.** -/
theorem inert_escape {code : α → List α} (h : ∀ c, Inert mark (code c)) (t : List α) :
    Inert mark (escape code t) := by
  intro c hc
  obtain ⟨d, -, hd⟩ := List.mem_flatMap.mp hc
  exact h d c hd

/-! ## Templates -/

/-- The characters of a part. -/
def partText : TemplatePart α → List α
  | .lit t => t
  | .hole t => t

/-- The characters that the template says. -/
def partLiteral : TemplatePart α → List α
  | .lit t => t
  | .hole _ => []

/-- What is filled in has no marks. -/
def PartInert : TemplatePart α → Prop
  | .lit _ => True
  | .hole t => Inert mark t

/-- The filled template. -/
def text (ps : List (TemplatePart α)) : List α := ps.flatMap partText

/-- The template, with nothing filled in. -/
def literals (ps : List (TemplatePart α)) : List α := ps.flatMap partLiteral

/-- Nothing that is filled in has a mark. -/
def HolesInert (ps : List (TemplatePart α)) : Prop := ∀ p ∈ ps, PartInert mark p

theorem literals_append (ps qs : List (TemplatePart α)) :
    literals (ps ++ qs) = literals ps ++ literals qs := List.flatMap_append

variable {mark}

theorem holesInert_nil : HolesInert mark [] := fun _ h => absurd h List.not_mem_nil

/-- Nothing is filled in. -/
theorem holesInert_of_lit {ps : List (TemplatePart α)} (h : ∀ p ∈ ps, ∃ t, p = .lit t) :
    HolesInert mark ps := by
  intro p hp
  obtain ⟨t, rfl⟩ := h p hp
  trivial

theorem HolesInert.append {ps qs : List (TemplatePart α)} (hp : HolesInert mark ps)
    (hq : HolesInert mark qs) : HolesInert mark (ps ++ qs) := by
  intro p hmem
  rcases List.mem_append.mp hmem with hmem | hmem
  · exact hp p hmem
  · exact hq p hmem

/-- **The marks of a filled template are those of the template.** -/
theorem marks_text {ps : List (TemplatePart α)} (h : HolesInert mark ps) :
    marks mark (text ps) = marks mark (literals ps) := by
  induction ps with
  | nil => rfl
  | cons p ps ih =>
    have hrest := ih fun q hq => h q (List.mem_cons_of_mem p hq)
    have hp := h p List.mem_cons_self
    rw [text, literals, List.flatMap_cons, List.flatMap_cons, marks_append, marks_append, ← text,
      ← literals, hrest]
    cases p with
    | lit t => rfl
    | hole t =>
      rw [partText, partLiteral, marks_eq_nil hp]
      rfl

/-! ## Rows -/

/-- Rows of one template, one after the other. -/
theorem literals_flatten {rows : List (List (TemplatePart α))} {row : List α}
    (h : ∀ ps ∈ rows, literals ps = row) :
    literals rows.flatten = (List.replicate rows.length row).flatten := by
  induction rows with
  | nil => rfl
  | cons ps rows ih =>
    rw [List.flatten_cons, literals_append, h ps List.mem_cons_self,
      ih fun qs hqs => h qs (List.mem_cons_of_mem ps hqs), List.length_cons, List.replicate_succ,
      List.flatten_cons]

theorem holesInert_flatten {rows : List (List (TemplatePart α))}
    (h : ∀ ps ∈ rows, HolesInert mark ps) : HolesInert mark rows.flatten := by
  intro p hp
  obtain ⟨ps, hps, hmem⟩ := List.mem_flatten.mp hp
  exact h ps hps p hmem

end TextTemplate
