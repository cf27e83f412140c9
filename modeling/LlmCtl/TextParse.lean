/-
# Reading texts (`std::str`)

Lines, words and decimal numbers, as `lines`, `split_whitespace` and `parse` read them.
-/
import LlmCtl.LineBuffer
import LlmCtl.SessionId

namespace LlmCtl

/-! ## Lines and words -/

/-- The end of a line in a text. -/
def isLineFeed (c : Char) : Bool := c == '\n'

/-- A line without its ending: a line feed, or a carriage return and a line feed. -/
def stripEnding (line : List Char) : List Char :=
  match line.reverse with
  | '\n' :: '\r' :: rest => rest.reverse
  | '\n' :: rest => rest.reverse
  | _ => line

/-- `str::lines`. -/
def strLines (text : List Char) : List (List Char) :=
  (LineBuffer.splitInclusive isLineFeed text).map stripEnding

/-- `str::split_whitespace`. -/
def splitWhitespace (text : List Char) : List (List Char) :=
  (text.splitOnP isWhiteSpace).filter fun word => !word.isEmpty

example : strLines "ab\r\n\nc\r".toList = ["ab".toList, [], "c\r".toList] := by decide

example : splitWhitespace "cpu  1 2 ".toList = ["cpu".toList, ['1'], ['2']] := by decide

/-! ## Trimming -/

/-- White space in front is trimmed off. -/
theorem trim_append_left {lead : List Char} (h : ∀ c ∈ lead, isWhiteSpace c = true)
    (s : List Char) : trim (String.ofList (lead ++ s)) = trim (String.ofList s) := by
  rw [trim, trim, String.toList_ofList, String.toList_ofList, List.dropWhile_append_of_pos h]

/-- White space at the end is trimmed off. -/
theorem trim_concat (s : List Char) {c : Char} (h : isWhiteSpace c = true) :
    trim (String.ofList (s ++ [c])) = trim (String.ofList s) := by
  rw [trim, trim, String.toList_ofList, String.toList_ofList, List.dropWhile_append]
  split
  · next hempty =>
    rw [List.dropWhile_cons_of_pos h, List.isEmpty_iff.mp hempty]
    rfl
  · rw [List.reverse_append, List.reverse_singleton, List.singleton_append,
      List.dropWhile_cons_of_pos h]

theorem trim_append_right (s : List Char) {trail : List Char}
    (h : ∀ c ∈ trail, isWhiteSpace c = true) :
    trim (String.ofList (s ++ trail)) = trim (String.ofList s) := by
  induction trail generalizing s with
  | nil => rw [List.append_nil]
  | cons c trail ih =>
    obtain ⟨hc, htrail⟩ := List.forall_mem_cons.mp h
    rw [List.append_cons, ih (s ++ [c]) htrail, trim_concat s hc]

/-- What does not begin with white space keeps its first character. -/
theorem trim_cons {c : Char} (h : isWhiteSpace c = false) (s : List Char) :
    ∃ rest, trim (String.ofList (c :: s)) = String.ofList (c :: rest) := by
  have hc : ¬ isWhiteSpace c = true := by rw [h]; exact Bool.false_ne_true
  rw [trim, String.toList_ofList, List.dropWhile_cons_of_neg hc, List.reverse_cons,
    List.dropWhile_append]
  split
  · rw [List.dropWhile_cons_of_neg hc]
    exact ⟨[], rfl⟩
  · rw [List.reverse_append]
    exact ⟨_, rfl⟩

/-- The ending of a line is white space. -/
theorem trim_stripEnding (line : List Char) :
    trim (String.ofList (stripEnding (line ++ ['\n']))) = trim (String.ofList line) := by
  unfold stripEnding
  rw [List.reverse_append, List.reverse_singleton, List.singleton_append]
  split
  · next rest hrest =>
    have hline : line = rest.reverse ++ ['\r'] := by
      rw [← List.reverse_reverse line, (List.cons.inj hrest).2, List.reverse_cons]
    rw [hline, trim_concat _ (by decide)]
  · next rest _ hrest =>
    rw [← (List.cons.inj hrest).2, List.reverse_reverse]
  · next hne => exact absurd rfl (hne _)

/-! ## Texts of lines -/

/-- The lines of a text whose lines are all terminated. -/
theorem strLines_of_terminated {lines : List (List Char)} (h : ∀ line ∈ lines, '\n' ∉ line) :
    strLines (lines.flatMap fun line => line ++ ['\n']) =
      lines.map fun line => stripEnding (line ++ ['\n']) := by
  induction lines with
  | nil => rfl
  | cons line lines ih =>
    obtain ⟨hline, hlines⟩ := List.forall_mem_cons.mp h
    have hend : ∀ c ∈ line, isLineFeed c = false := by
      intro c hc
      rw [isLineFeed, beq_eq_false_iff_ne]
      rintro rfl
      exact hline hc
    have hfirst := LineBuffer.splitInclusive_append isLineFeed hend (e := '\n') rfl
      (lines.flatMap fun line => line ++ ['\n'])
    rw [List.flatMap_cons, List.append_assoc, List.singleton_append, strLines, hfirst,
      List.map_cons, List.map_cons]
    exact congrArg _ (ih hlines)

/-! ## Numbers -/

/-- The number that decimal digits stand for. -/
def digitsValue (digits : List Char) : ℕ := Nat.ofDigitChars 10 digits 0

/-- At least one digit, and nothing else. -/
def isDigits (s : List Char) : Bool := !s.isEmpty && s.all Char.isDigit

/-- `str::parse::<u64>`: digits, with a plus sign perhaps. -/
def parseU64 (s : List Char) : Option ℕ :=
  let digits := match s with
    | '+' :: rest => rest
    | _ => s
  if isDigits digits && decide (digitsValue digits < 2 ^ 64) then some (digitsValue digits)
  else none

example : parseU64 "+18446744073709551615".toList = some (2 ^ 64 - 1) ∧
    parseU64 "18446744073709551616".toList = none ∧ parseU64 "-1".toList = none := by decide

end LlmCtl
