/-
# The bytes of a pipe (`collect.rs`)

`collect_capped` reads a pipe line by line into a `String`.  A line that is not UTF-8 is an error
of the read, and the loop ends at an error as it does at the end of the pipe.

So every line is pushed, up to the end of the pipe, just if all of them are UTF-8; how the bytes
are cut into reads does not matter.
-/
import LlmCtl.JobOutput
import LlmCtl.Utf8Text

namespace LlmCtl

/-! ## The loop -/

/-- What one read of a pipe yields; it yields nothing only at the end. -/
structure PipeRead where
  bytes : List UInt8
  nonempty : bytes ≠ []

/-- How `collect_capped` ends: at the end of the pipe, or at an error of a read. -/
inductive CollectEnd where
  | eof
  | error
  deriving DecidableEq

/-- The loop of `collect_capped`: the lines that it pushes, and how it ends. -/
def collectLines (buf : List UInt8) (reads : List (List UInt8)) : List String × CollectEnd :=
  if _ : (LineBuffer.readLine isNewline buf reads).1 = [] then ([], .eof)
  else
    match fromUtf8 (LineBuffer.readLine isNewline buf reads).1 with
    | none => ([], .error)
    | some line =>
      let rest := collectLines (LineBuffer.readLine isNewline buf reads).2.1
        (LineBuffer.readLine isNewline buf reads).2.2
      (trimEnd line :: rest.1, rest.2)
termination_by (buf ++ reads.flatten).length
decreasing_by exact LineBuffer.length_of_readLine isNewline ‹_›

/-- **`collect_capped`**, on the reads of a pipe. -/
def collectPipe (reads : List PipeRead) : List String × CollectEnd :=
  collectLines [] (reads.map PipeRead.bytes)

/-! ## The lines of the pipe -/

/-- All that is written to the pipe. -/
def pipeBytes (reads : List PipeRead) : List UInt8 := (reads.map PipeRead.bytes).flatten

/-- The lines of the bytes; the last one may have no terminator. -/
def linesOf (bytes : List UInt8) : List (List UInt8) := LineBuffer.splitInclusive isNewline bytes

/-- How the loop ends, by what the lines are decoded to. -/
def endOf (lines : List (Option String)) : CollectEnd :=
  if lines.all Option.isSome then .eof else .error

/-- **Reads do not matter**: the loop pushes the lines up to the first one that is not UTF-8. -/
theorem collectLines_eq (buf : List UInt8) (reads : List (List UInt8)) :
    collectLines buf reads =
      (Output.readable ((linesOf (buf ++ reads.flatten)).map fromUtf8),
        endOf ((linesOf (buf ++ reads.flatten)).map fromUtf8)) := by
  fun_induction collectLines buf reads with
  | case1 buf reads h =>
    rw [linesOf, LineBuffer.splitInclusive_of_readLine_nil isNewline h]
    rfl
  | case2 buf reads h hbad =>
    rw [linesOf, LineBuffer.splitInclusive_readLine isNewline h, List.map_cons, hbad]
    rfl
  | case3 buf reads h line hline rest ih =>
    rw [linesOf, LineBuffer.splitInclusive_readLine isNewline h, List.map_cons, hline,
      Output.readable, endOf, List.all_cons, Option.isSome_some, Bool.true_and]
    show (_ :: rest.1, rest.2) = _
    rw [show rest = _ from ih]
    rfl

/-! ## No line is lost -/

/-- A line as it is to be pushed: decoded, lossily where it is not UTF-8. -/
def decodedLine (line : List UInt8) : String :=
  trimEnd ((fromUtf8 line).getD (fromUtf8Lossy line))

/-- The pipe is read to its end, and each of its lines is pushed. -/
def CollectsAll (reads : List PipeRead) : Prop :=
  collectPipe reads = ((linesOf (pipeBytes reads)).map decodedLine, .eof)

instance (reads : List PipeRead) : Decidable (CollectsAll reads) :=
  inferInstanceAs (Decidable (collectPipe reads = _))

/-- If all lines are UTF-8, they are all read. -/
theorem readable_eq_map {lines : List (List UInt8)} (h : ∀ line ∈ lines, (fromUtf8 line).isSome) :
    Output.readable (lines.map fromUtf8) = lines.map decodedLine := by
  induction lines with
  | nil => rfl
  | cons line lines ih =>
    obtain ⟨text, htext⟩ := Option.isSome_iff_exists.mp (h line List.mem_cons_self)
    rw [List.map_cons, List.map_cons, htext, Output.readable, decodedLine, htext,
      Option.getD_some, ih fun l hl => h l (List.mem_cons_of_mem _ hl)]

/-- **Every line of the pipe is pushed, up to its end, just if all of them are UTF-8.** -/
theorem collects_all_iff (reads : List PipeRead) :
    CollectsAll reads ↔ ∀ line ∈ linesOf (pipeBytes reads), (fromUtf8 line).isSome := by
  rw [CollectsAll, collectPipe, collectLines_eq, List.nil_append]
  constructor
  · intro h
    have hend := (Prod.mk.inj h).2
    rw [endOf] at hend
    split at hend
    · next hall =>
      intro line hline
      exact List.all_eq_true.mp hall _ (List.mem_map_of_mem hline)
    · exact absurd hend (by decide)
  · intro h
    have hall : ((linesOf (pipeBytes reads)).map fromUtf8).all Option.isSome := by
      rw [List.all_map, List.all_eq_true]
      exact h
    exact Prod.ext (readable_eq_map h) (if_pos hall)

/-- The second of three lines is not UTF-8: it is not pushed, nor is the third one. -/
theorem bad_line_ends_reading : ¬ ∀ reads, CollectsAll reads := fun h =>
  absurd (h [⟨[0x6F, 0x6B, 10], by decide⟩, ⟨[0xFF, 10], by decide⟩,
    ⟨[0x64, 0x6F, 0x6E, 0x65, 10], by decide⟩]) (by decide +kernel)

end LlmCtl
