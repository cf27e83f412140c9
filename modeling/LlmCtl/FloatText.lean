/-
# Decimal doubles (`str::parse::<f64>`)

The texts that `str::parse::<f64>` accepts, and the double that each of them stands for: the
nearest one, ties to even.  The sign of zero is left out.
-/
import LlmCtl.TextParse
import Mathlib.Data.Int.Log
import Mathlib.Data.Rat.Floor
import Mathlib.Algebra.Order.Field.Rat

namespace LlmCtl

/-! ## Doubles -/

/-- An `f64`. -/
inductive F64 where
  | nan
  | inf (negative : Bool)
  | finite (q : ℚ)
  deriving DecidableEq

/-- A number times a power. -/
def scale (q : ℚ) (base : ℕ) : ℤ → ℚ
  | .ofNat n => q * (base : ℚ) ^ n
  | .negSucc n => q / (base : ℚ) ^ (n + 1)

/-- The nearest integer, ties to even. -/
def roundHalfEven (q : ℚ) : ℤ :=
  let up := 1 / 2 < Int.fract q ∨ (Int.fract q = 1 / 2 ∧ ⌊q⌋ % 2 = 1)
  if up then ⌊q⌋ + 1 else ⌊q⌋

/-- The double nearest to a rational number. -/
def nearestF64 (q : ℚ) : F64 :=
  if q = 0 then .finite 0
  else
    -- The unit in the last place; it does not get smaller below the normal numbers.
    let ulp := max (Int.log 2 |q| - 52) (-1074)
    let r := scale (roundHalfEven (scale q 2 (-ulp))) 2 ulp
    if scale 1 2 1024 ≤ |r| then .inf (decide (q < 0)) else .finite r

/-! ## The grammar -/

/-- A sign, and what follows it. -/
def takeSign : List Char → Bool × List Char
  | '-' :: rest => (true, rest)
  | '+' :: rest => (false, rest)
  | rest => (false, rest)

/-- The exponent of a decimal number, which may be missing. -/
def parseExponent : List Char → Option ℤ
  | [] => some 0
  | e :: rest =>
    let digits := (takeSign rest).2
    if e.toLower = 'e' ∧ isDigits digits then
      some (if (takeSign rest).1 then -(digitsValue digits : ℤ) else digitsValue digits)
    else none

/-- The fraction of a decimal number, which may be missing, and what follows it. -/
def takeFraction : List Char → List Char × List Char
  | '.' :: rest => (rest.takeWhile Char.isDigit, rest.dropWhile Char.isDigit)
  | rest => ([], rest)

/-- A decimal number without sign. -/
def parseDecimal (s : List Char) : Option ℚ :=
  let whole := s.takeWhile Char.isDigit
  let fraction := takeFraction (s.dropWhile Char.isDigit)
  if whole.isEmpty && fraction.1.isEmpty then none
  else (parseExponent fraction.2).map fun e =>
    scale (digitsValue (whole ++ fraction.1)) 10 (e - fraction.1.length)

/-- **`str::parse::<f64>`.** -/
def parseF64 (s : List Char) : Option F64 :=
  let body := (takeSign s).2
  let word := String.ofList (body.map Char.toLower)
  if word = "inf" ∨ word = "infinity" then some (.inf (takeSign s).1)
  else if word = "nan" then some .nan
  else (parseDecimal body).map fun q => nearestF64 (if (takeSign s).1 then -q else q)

example : parseF64 "-1.25e+2".toList = some (.finite (-125)) ∧
    parseF64 "+Inf".toList = some (.inf false) ∧ parseF64 "1e400".toList = some (.inf false) ∧
    parseF64 ".5".toList = some (.finite (1 / 2)) ∧ parseF64 ".".toList = none ∧
    parseF64 "9007199254740993".toList = some (.finite 9007199254740992) ∧
    parseF64 " 1".toList = none := by decide +kernel

/-! ## No white space -/

/-- White space is no printable ASCII character. -/
theorem toNat_of_isWhiteSpace {c : Char} (h : isWhiteSpace c = true) :
    c.toNat ≤ 32 ∨ 133 ≤ c.toNat := by
  by_contra hbetween
  have hleft : ¬(0x09 ≤ c.toNat ∧ c.toNat ≤ 0x0D) := by omega
  have hmiddle : ¬(0x2000 ≤ c.toNat ∧ c.toNat ≤ 0x200A) := by omega
  simp only [isWhiteSpace, Bool.or_eq_true, Bool.and_eq_true, decide_eq_true_eq, hleft, hmiddle,
    false_or, List.contains_iff_mem, List.mem_cons, List.not_mem_nil, or_false] at h
  omega

theorem not_whiteSpace_of_toNat {c : Char} (hlow : 32 < c.toNat) (hhigh : c.toNat < 133) :
    isWhiteSpace c = false := by
  by_contra h
  have hrange := toNat_of_isWhiteSpace (Bool.eq_true_of_not_eq_false h)
  omega

theorem toNat_of_isDigit {c : Char} (h : c.isDigit = true) : 48 ≤ c.toNat ∧ c.toNat ≤ 57 := by
  simp only [Char.isDigit, Bool.and_eq_true, decide_eq_true_eq] at h
  exact ⟨UInt32.le_iff_toNat_le.mp h.1, UInt32.le_iff_toNat_le.mp h.2⟩

theorem not_whiteSpace_of_isDigit {c : Char} (h : c.isDigit = true) : isWhiteSpace c = false := by
  have hrange := toNat_of_isDigit h
  exact not_whiteSpace_of_toNat (by omega) (by omega)

/-- A letter that becomes a lower case letter is no white space. -/
theorem not_whiteSpace_of_toLower {c : Char} {word : List Char} (hc : c.toLower ∈ word)
    (hword : (word.all fun d => decide (97 ≤ d.toNat ∧ d.toNat ≤ 122)) = true) :
    isWhiteSpace c = false := by
  by_cases hupper : c.val ≥ 'A'.val ∧ c.val ≤ 'Z'.val
  · have hlow : 65 ≤ c.toNat := UInt32.le_iff_toNat_le.mp hupper.1
    have hhigh : c.toNat ≤ 90 := UInt32.le_iff_toNat_le.mp hupper.2
    exact not_whiteSpace_of_toNat (by omega) (by omega)
  · have hsame : c.toLower = c := dif_neg hupper
    rw [hsame] at hc
    have hrange := of_decide_eq_true (List.all_eq_true.mp hword c hc)
    exact not_whiteSpace_of_toNat (by omega) (by omega)

/-- What follows the sign decides whether there is white space. -/
theorem not_whiteSpace_of_takeSign {s : List Char}
    (h : ∀ c ∈ (takeSign s).2, isWhiteSpace c = false) : ∀ c ∈ s, isWhiteSpace c = false := by
  unfold takeSign at h
  split at h
  · exact List.forall_mem_cons.mpr ⟨by decide, h⟩
  · exact List.forall_mem_cons.mpr ⟨by decide, h⟩
  · exact h

theorem not_whiteSpace_of_isDigits {s : List Char} (h : isDigits s = true) :
    ∀ c ∈ s, isWhiteSpace c = false := by
  intro c hc
  rw [isDigits, Bool.and_eq_true, List.all_eq_true] at h
  exact not_whiteSpace_of_isDigit (h.2 c hc)

theorem not_whiteSpace_of_parseExponent {s : List Char} {e : ℤ} (h : parseExponent s = some e) :
    ∀ c ∈ s, isWhiteSpace c = false := by
  cases s with
  | nil => exact fun c hc => absurd hc List.not_mem_nil
  | cons d rest =>
    simp only [parseExponent] at h
    split at h
    · next hexp =>
      refine List.forall_mem_cons.mpr ⟨?_, not_whiteSpace_of_takeSign ?_⟩
      · exact not_whiteSpace_of_toLower (List.mem_singleton.mpr hexp.1) rfl
      · exact not_whiteSpace_of_isDigits hexp.2
    · exact absurd h (by simp)

theorem not_whiteSpace_of_takeWhile {s : List Char}
    (h : ∀ c ∈ s.dropWhile Char.isDigit, isWhiteSpace c = false) :
    ∀ c ∈ s, isWhiteSpace c = false := by
  intro c hc
  rw [← List.takeWhile_append_dropWhile (p := Char.isDigit) (l := s), List.mem_append] at hc
  rcases hc with hc | hc
  · exact not_whiteSpace_of_isDigit (List.all_eq_true.mp List.all_takeWhile c hc)
  · exact h c hc

theorem not_whiteSpace_of_parseDecimal {s : List Char} {q : ℚ} (h : parseDecimal s = some q) :
    ∀ c ∈ s, isWhiteSpace c = false := by
  simp only [parseDecimal] at h
  split at h
  · exact absurd h (by simp)
  · obtain ⟨e, he, -⟩ := Option.map_eq_some_iff.mp h
    have hexp := not_whiteSpace_of_parseExponent he
    refine not_whiteSpace_of_takeWhile ?_
    unfold takeFraction at hexp
    split at hexp
    · next rest hrest =>
      rw [hrest]
      exact List.forall_mem_cons.mpr ⟨by decide, not_whiteSpace_of_takeWhile hexp⟩
    · exact hexp

/-- **A text that is read as a double has no white space.** -/
theorem not_whiteSpace_of_parseF64 {s : List Char} {v : F64} (h : parseF64 s = some v) :
    ∀ c ∈ s, isWhiteSpace c = false := by
  refine not_whiteSpace_of_takeSign fun c hc => ?_
  have hmem : c.toLower ∈ (String.ofList ((takeSign s).2.map Char.toLower)).toList := by
    rw [String.toList_ofList]
    exact List.mem_map_of_mem hc
  simp only [parseF64] at h
  split at h
  · next hword =>
    rcases hword with hword | hword
    · rw [hword] at hmem
      exact not_whiteSpace_of_toLower hmem (by decide)
    · rw [hword] at hmem
      exact not_whiteSpace_of_toLower hmem (by decide)
  · split at h
    · next hword =>
      rw [hword] at hmem
      exact not_whiteSpace_of_toLower hmem (by decide)
    · obtain ⟨q, hq, -⟩ := Option.map_eq_some_iff.mp h
      exact not_whiteSpace_of_parseDecimal hq c hc

end LlmCtl
