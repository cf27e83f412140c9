/-
# JSON texts

Formats for the JSON values that a program writes for itself and reads again: numbers, strings,
truth values, `null`, and an array with each item on lines of its own.
-/
import LlmCtl.TextFormat
import Mathlib.Data.Nat.Notation
import Mathlib.Data.Rat.Defs

namespace JsonText

/-! ## Strings -/

def hexDigit (n : ℕ) : Char := Nat.digitChar n

/-- The characters that are escaped, each with what follows the backslash. -/
def escapes : List (Char × List Char) :=
  [('"', ['"']), ('\\', ['\\']), ('\x08', ['b']), ('\x0c', ['f']), ('\n', ['n']), ('\r', ['r']),
    ('\t', ['t'])] ++
  ((List.range 32).filter fun n => n ∉ [8, 9, 10, 12, 13]).map fun n =>
    (Char.ofNat n, ['u', '0', '0', hexDigit (n / 16), hexDigit (n % 16)])

/-- Each escape is found under its character, and none begins another one. -/
theorem escapes_ok : ∀ e ∈ escapes, escapes.lookup e.1 = some e.2 ∧
    ∀ e' ∈ escapes, e'.2 <+: e.2 ∨ e.2 <+: e'.2 → e' = e := by
  decide

theorem mem_escapes_of_lookup {c : Char} {l : List Char} (h : escapes.lookup c = some l) :
    (c, l) ∈ escapes := by
  obtain ⟨before, behind, heq, -⟩ := List.lookup_eq_some_iff.mp h
  rw [heq]
  exact List.mem_append_right _ List.mem_cons_self

theorem find_escape {e : Char × List Char} (he : e ∈ escapes) (rest : List Char) :
    escapes.find? (fun e' => e'.2 <+: e.2 ++ rest) = some e := by
  cases hfind : escapes.find? (fun e' => e'.2 <+: e.2 ++ rest) with
  | none =>
    have hnot := List.find?_eq_none.mp hfind e he
    exact absurd (decide_eq_true (List.prefix_append e.2 rest)) hnot
  | some e' =>
    have hpre : e'.2 <+: e.2 ++ rest := by simpa using List.find?_some hfind
    have hor := List.prefix_or_prefix_of_prefix hpre (List.prefix_append e.2 rest)
    rw [(escapes_ok e he).2 e' (List.mem_of_find?_eq_some hfind) hor]

/-- A character in a string. -/
def char : TextFormat Char Char where
  print := fun c =>
    match escapes.lookup c with
    | some l => '\\' :: l
    | none => [c]
  read := fun
    | [] => none
    | c :: t =>
      if c = '\\' then
        (escapes.find? fun e => e.2 <+: t).map fun e => (e.1, t.drop e.2.length)
      else if (escapes.lookup c).isSome then none
      else some (c, t)
  read_print := by
    intro c rest
    cases hc : escapes.lookup c with
    | none =>
      have hslash : c ≠ '\\' := by
        rintro rfl
        exact absurd hc (by decide)
      simp only [List.singleton_append]
      rw [if_neg hslash, hc]
      rfl
    | some l =>
      simp only [List.cons_append, if_true]
      rw [find_escape (mem_escapes_of_lookup hc)]
      simp
  read_sound := by
    intro t c rest h
    cases t with
    | nil => exact absurd h (by simp)
    | cons d t =>
      simp only at h
      split at h
      · next hd =>
        obtain ⟨e, he, h⟩ := Option.map_eq_some_iff.mp h
        obtain ⟨rfl, rfl⟩ := Prod.mk.inj h
        have hpre : e.2 <+: t := by simpa using List.find?_some he
        obtain ⟨s, rfl⟩ := hpre
        rw [(escapes_ok e (List.mem_of_find?_eq_some he)).1, hd]
        simp
      · split at h
        · exact absurd h (by simp)
        · next hnone =>
          obtain ⟨rfl, rfl⟩ := Prod.mk.inj (Option.some.inj h)
          rw [Option.not_isSome_iff_eq_none.mp hnone]
          rfl

theorem char_avoids_quote : char.Avoids '"' := by
  intro c
  show ∃ d l, (match escapes.lookup c with | some l => '\\' :: l | none => [c]) = d :: l ∧ d ≠ '"'
  split
  · exact ⟨_, _, rfl, by decide⟩
  · next hc =>
    refine ⟨c, [], rfl, ?_⟩
    rintro rfl
    exact absurd hc (by decide)

/-- A string with its quotes. -/
def string : TextFormat String Char :=
  ((char.star '"' char_avoids_quote).after ['"']).via (fun l => some (String.ofList l))
    String.toList fun l s =>
      ⟨fun h => by rw [← Option.some.inj h, String.toList_ofList],
        fun h => by rw [← h, String.ofList_toList]⟩

/-- `null`, or a value whose texts begin with another letter. -/
def nullOr {α : Type*} (f : TextFormat α Char)
    (h : ∀ a, ∃ c l, f.print a = c :: l ∧ c ≠ 'n') : TextFormat (Option α) Char :=
  ((TextFormat.lit "null".toList).orElse f fun _ a s t => by
    obtain ⟨c, l, hprint, hc⟩ := h a
    rw [hprint]
    exact fun heq => hc (List.cons.inj heq).1.symm).via
    (fun v => some (v.elim (fun _ => none) some)) (fun o => o.elim (.inl ()) .inr) fun v o => by
      cases v <;> cases o <;> simp [eq_comm]

def nullOrString : TextFormat (Option String) Char :=
  nullOr string fun s => ⟨'"', _, rfl, by decide⟩

/-! ## Truth values and numbers -/

def bool : TextFormat Bool Char :=
  ((TextFormat.lit "true".toList).orElse (TextFormat.lit "false".toList) fun _ _ s t heq =>
    absurd (List.cons.inj heq).1 (by decide)).via
    (fun v => some v.isLeft) (fun b => if b then .inl () else .inr ()) fun v b => by
      cases v <;> cases b <;> simp

/-- The text of a fraction.  A whole number is printed as doubles are; another one as its two
sides here. -/
def fractionText (n d : ℕ) : List Char :=
  Nat.toDigits 10 n ++ if d = 1 then ['.', '0'] else '/' :: Nat.toDigits 10 d

/-- The two sides of a fraction. -/
def fractionOf (l : List Char) : ℕ × ℕ :=
  (Nat.ofDigitChars 10 (l.takeWhile Char.isDigit) 0,
    match l.dropWhile Char.isDigit with
    | '/' :: ds => Nat.ofDigitChars 10 ds 0
    | _ => 1)

def numberText (q : ℚ) : List Char :=
  if q.num < 0 then '-' :: fractionText q.num.natAbs q.den else fractionText q.num.natAbs q.den

/-- The number of a text. -/
def numberOf : List Char → ℚ
  | [] => 0
  | c :: l =>
    if c = '-' then mkRat (-(fractionOf l).1) (fractionOf l).2
    else mkRat (fractionOf (c :: l)).1 (fractionOf (c :: l)).2

theorem isDigit_of_mem_digits {n : ℕ} : ∀ c ∈ Nat.toDigits 10 n, c.isDigit = true :=
  fun _ hc => Nat.isDigit_of_mem_toDigits (by decide) (by decide) hc

/-- The digits end where something else follows. -/
theorem span_digits (n : ℕ) {c : Char} (hc : c.isDigit = false) (rest : List Char) :
    (Nat.toDigits 10 n ++ c :: rest).takeWhile Char.isDigit = Nat.toDigits 10 n ∧
      (Nat.toDigits 10 n ++ c :: rest).dropWhile Char.isDigit = c :: rest := by
  rw [List.takeWhile_append_of_pos isDigit_of_mem_digits,
    List.dropWhile_append_of_pos isDigit_of_mem_digits, List.takeWhile_cons_of_neg (by simp [hc]),
    List.dropWhile_cons_of_neg (by simp [hc]), List.append_nil]
  exact ⟨rfl, rfl⟩

theorem fractionOf_text (n d : ℕ) : fractionOf (fractionText n d) = (n, d) := by
  unfold fractionText
  split
  · next hd =>
    obtain ⟨htake, hdrop⟩ := span_digits n (c := '.') rfl ['0']
    rw [fractionOf, htake, hdrop, Nat.ofDigitChars_ten_toDigits, hd]
    rfl
  · obtain ⟨htake, hdrop⟩ := span_digits n (c := '/') rfl (Nat.toDigits 10 d)
    rw [fractionOf, htake, hdrop, Nat.ofDigitChars_ten_toDigits]
    exact congrArg (Prod.mk n) Nat.ofDigitChars_ten_toDigits

/-- A fraction begins with a digit. -/
theorem fractionText_cons (n d : ℕ) : ∃ c l, fractionText n d = c :: l ∧ c ≠ '-' := by
  cases hn : Nat.toDigits 10 n with
  | nil => exact absurd hn Nat.toDigits_ne_nil
  | cons c l =>
    refine ⟨c, _, by rw [fractionText, hn]; rfl, ?_⟩
    rintro rfl
    have hdigit := isDigit_of_mem_digits (n := n) '-' (by rw [hn]; exact List.mem_cons_self)
    exact absurd hdigit (by decide)

/-- **The text of a number gives the number back.** -/
theorem numberOf_numberText (q : ℚ) : numberOf (numberText q) = q := by
  unfold numberText
  split
  · next hneg =>
    rw [numberOf, if_pos rfl, fractionOf_text]
    have hnum : -(q.num.natAbs : ℤ) = q.num := by omega
    rw [hnum, Rat.mkRat_self]
  · next hneg =>
    obtain ⟨c, l, htext, hc⟩ := fractionText_cons q.num.natAbs q.den
    rw [htext, numberOf, if_neg hc, ← htext, fractionOf_text]
    have hnum : (q.num.natAbs : ℤ) = q.num := by omega
    rw [hnum, Rat.mkRat_self]

theorem comma_notMem_digits (n : ℕ) : ',' ∉ Nat.toDigits 10 n := fun hmem =>
  absurd (isDigit_of_mem_digits _ hmem) (by decide)

theorem comma_notMem_numberText (q : ℚ) : ',' ∉ numberText q := by
  have hfraction : ∀ n d, ',' ∉ fractionText n d := by
    intro n d hmem
    rcases List.mem_append.mp hmem with hmem | hmem
    · exact comma_notMem_digits n hmem
    · split at hmem
      · exact absurd hmem (by decide)
      · exact comma_notMem_digits d (List.mem_of_ne_of_mem (by decide) hmem)
  unfold numberText
  split
  · exact fun hmem => hfraction _ _ (List.mem_of_ne_of_mem (by decide) hmem)
  · exact hfraction _ _

/-- A number and the comma behind it. -/
def numberComma : TextFormat ℚ Char :=
  (TextFormat.upTo ',').via
    (fun l => if numberText (numberOf l.1) = l.1 then some (numberOf l.1) else none)
    (fun q => ⟨numberText q, comma_notMem_numberText q⟩) fun l q => by
      constructor
      · intro h
        split at h
        · next htext =>
          rw [← Option.some.inj h]
          exact Subtype.ext htext
        · exact absurd h (by simp)
      · rintro rfl
        rw [numberOf_numberText, if_pos rfl]

/-! ## Arrays -/

/-- An array of which each item stands on lines of its own. -/
def items {α : Type*} (f : TextFormat α Char) : TextFormat (List α) Char :=
  ((TextFormat.lit "[]".toList).orElse
    ((f.seq ((f.after ",\n  ".toList).star '\n' fun a => ⟨',', _, rfl, by decide⟩)).after
      "[\n  ".toList |>.before [']'])
    fun _ a s t heq => absurd (List.cons.inj (List.cons.inj heq).2).1 (by decide)).via
    (fun v => some (v.elim (fun _ => []) fun p => p.1 :: p.2))
    (fun l => match l with
      | [] => .inl ()
      | a :: l => .inr (a, l)) fun v l => by
      cases v <;> cases l <;> simp [Prod.ext_iff, eq_comm]

end JsonText
