/-
# Percent decoding

A byte string is decoded from the left: `%` and two hexadecimal digits stand for one byte, and
every other byte stands for itself; a `%` without two digits after it is kept.
`decodeMarked` says of each decoded byte whether it was written as an escape, which is what a
reader needs who compares the decoded string with the raw one: a literal that no escape can
reach into is a suffix of the raw string just if it is an unescaped suffix of the decoded one.
-/
import Mathlib.Data.List.Basic

namespace PercentDecode

/-! ## Decoding -/

/-- The byte `%`. -/
def percent : UInt8 := 37

/-- The value of a hexadecimal digit. -/
def hexValue (b : UInt8) : Option UInt8 :=
  if 48 ≤ b ∧ b ≤ 57 then some (b - 48)
  else if 65 ≤ b ∧ b ≤ 70 then some (b - 55)
  else if 97 ≤ b ∧ b ≤ 102 then some (b - 87)
  else none

/-- The byte that an escape stands for. -/
def escape? (b h l : UInt8) : Option UInt8 :=
  if b = percent then (hexValue h).bind fun x => (hexValue l).map fun y => 16 * x + y else none

/-- The decoded bytes, each with a mark that says whether it was written as an escape. -/
def decodeMarked : List UInt8 → List (UInt8 × Bool)
  | b :: h :: l :: rest =>
    match escape? b h l with
    | some v => (v, true) :: decodeMarked rest
    | none => (b, false) :: decodeMarked (h :: l :: rest)
  | b :: rest => (b, false) :: decodeMarked rest
  | [] => []

/-- Percent decoding. -/
def decode (p : List UInt8) : List UInt8 := (decodeMarked p).map Prod.fst

/-- The bytes as they stand, none of them an escape. -/
def literal (s : List UInt8) : List (UInt8 × Bool) := s.map fun b => (b, false)

/-! ## Escapes -/

theorem escape?_of_ne {b : UInt8} (h l : UInt8) (hb : b ≠ percent) : escape? b h l = none := by
  rw [escape?, if_neg hb]

theorem escape?_of_first {b h l : UInt8} (hh : hexValue h = none) : escape? b h l = none := by
  simp [escape?, hh]

theorem escape?_of_second {b h l : UInt8} (hl : hexValue l = none) : escape? b h l = none := by
  simp [escape?, hl]

/-! ## Decoding in two pieces -/

/-- Nothing in front of a byte that is no digit reaches into it. -/
theorem decodeMarked_append {c : UInt8} (hc : hexValue c = none) (q cs : List UInt8) :
    decodeMarked (q ++ c :: cs) = decodeMarked q ++ decodeMarked (c :: cs) := by
  induction q using decodeMarked.induct with
  | case1 b h l rest v hv ih => simp [decodeMarked, hv, ih]
  | case2 b h l rest hv ih =>
    simp only [List.cons_append] at ih
    simp [decodeMarked, hv, ih]
  | case3 b rest hshort ih =>
    cases rest with
    | nil =>
      cases cs with
      | nil => rfl
      | cons d ds => simp [decodeMarked, escape?_of_first hc]
    | cons h rest =>
      cases rest with
      | nil =>
        simp only [List.cons_append, List.nil_append] at ih
        simp [decodeMarked, escape?_of_second hc, ih]
      | cons l rest => exact absurd rfl (hshort h l rest)
  | case4 => rfl

/-- A string without `%` stands for itself. -/
theorem decodeMarked_of_no_percent {s : List UInt8} (hs : ∀ b ∈ s, b ≠ percent) :
    decodeMarked s = literal s := by
  induction s using decodeMarked.induct with
  | case1 b h l rest v hv ih =>
    rw [escape?_of_ne h l (hs b List.mem_cons_self)] at hv
    exact absurd hv (by simp)
  | case2 b h l rest hv ih =>
    have hrest := ih fun x hx => hs x (List.mem_cons_of_mem b hx)
    simp only [decodeMarked, hv, hrest]
    rfl
  | case3 b rest hshort ih =>
    have hrest := ih fun x hx => hs x (List.mem_cons_of_mem b hx)
    rw [decodeMarked, hrest]
    · rfl
    · exact hshort
  | case4 => rfl

/-- A string that is decoded without any escape stands for itself. -/
theorem eq_of_decodeMarked_eq {p s : List UInt8} (h : decodeMarked p = literal s) : p = s := by
  induction p using decodeMarked.induct generalizing s with
  | case1 b x l rest v hv ih =>
    cases s with
    | nil => simp [decodeMarked, hv, literal] at h
    | cons c cs => simp [decodeMarked, hv, literal] at h
  | case2 b x l rest hv ih =>
    cases s with
    | nil => simp [decodeMarked, hv, literal] at h
    | cons c cs =>
      simp only [decodeMarked, hv, literal, List.map_cons, List.cons.injEq, Prod.mk.injEq,
        and_true] at h
      rw [h.1, ih h.2]
  | case3 b rest hshort ih =>
    rw [decodeMarked] at h
    · cases s with
      | nil => simp [literal] at h
      | cons c cs =>
        simp only [literal, List.map_cons, List.cons.injEq, Prod.mk.injEq, and_true] at h
        rw [h.1, ih h.2]
    · exact hshort
  | case4 =>
    cases s with
    | nil => rfl
    | cons c cs => simp [decodeMarked, literal] at h

/-- An unescaped end of the decoded string is an end of the raw one. -/
theorem suffix_of_literal_suffix {p s : List UInt8} (h : literal s <:+ decodeMarked p) :
    s <:+ p := by
  induction p using decodeMarked.induct with
  | case1 b x l rest v hv ih =>
    simp only [decodeMarked, hv] at h
    rcases List.suffix_cons_iff.mp h with heq | hrest
    · cases s with
      | nil => exact List.nil_suffix
      | cons c cs => simp [literal] at heq
    · exact (ih hrest).trans ⟨[b, x, l], rfl⟩
  | case2 b x l rest hv ih =>
    have hall :
        decodeMarked (b :: x :: l :: rest) = (b, false) :: decodeMarked (x :: l :: rest) := by
      simp only [decodeMarked, hv]
    rw [hall] at h
    rcases List.suffix_cons_iff.mp h with heq | hrest
    · have hsame := eq_of_decodeMarked_eq (hall.trans heq.symm)
      exact hsame ▸ List.suffix_refl _
    · exact (ih hrest).trans (List.suffix_cons b _)
  | case3 b rest hshort ih =>
    have hall : decodeMarked (b :: rest) = (b, false) :: decodeMarked rest := by
      rw [decodeMarked]
      exact hshort
    rw [hall] at h
    rcases List.suffix_cons_iff.mp h with heq | hrest
    · have hsame := eq_of_decodeMarked_eq (hall.trans heq.symm)
      exact hsame ▸ List.suffix_refl _
    · exact (ih hrest).trans (List.suffix_cons b _)
  | case4 =>
    have hnil : literal s = [] := List.suffix_nil.mp h
    have hs : s = [] := List.map_eq_nil_iff.mp hnil
    exact hs ▸ List.nil_suffix

/-- **A literal that no escape can reach into** is an end of the raw string just if it is an
unescaped end of the decoded one. -/
theorem suffix_iff {p : List UInt8} {c : UInt8} {cs : List UInt8} (hc : hexValue c = none)
    (hs : ∀ b ∈ c :: cs, b ≠ percent) :
    c :: cs <:+ p ↔ literal (c :: cs) <:+ decodeMarked p := by
  constructor
  · rintro ⟨q, rfl⟩
    rw [decodeMarked_append hc, decodeMarked_of_no_percent hs]
    exact List.suffix_append _ _
  · exact suffix_of_literal_suffix

end PercentDecode
