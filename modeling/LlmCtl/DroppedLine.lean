/-
# Is a dropped line dropped whole? (`proxy.rs`)

`stream_and_record` clears its buffer when more than `MAX_SSE_BUF` bytes of a line have arrived
without a newline.  It keeps no note of that, so what arrives next, up to the newline of the
same line, is fed to the collector like a line of its own.  A dropped line is dropped whole just
if its newline never arrives.
-/
import LlmCtl.LongLines
import LlmCtl.StreamCollector

namespace LlmCtl

open LineBuffer

/-! ## The property -/

/-- The lines that the read loop passes to `feed`; without a session the chunks are only passed
on. -/
def streamFed (sessionId : String) (chunks : List (List UInt8)) : List (List UInt8) :=
  if sessionId = "" then [] else fedLines isNewline maxSseBuf [] chunks

/-- The terminated lines of the stream that the buffer was never cleared in. -/
def streamKept (sessionId : String) (chunks : List (List UInt8)) : List (List UInt8) :=
  if sessionId = "" then [] else keptLines isNewline maxSseBuf chunks

/-- **A dropped line is dropped whole**: what is fed are the other lines, each from its beginning,
and the collector is theirs. -/
structure DroppedWhole (sessionId : String) (chunks : List (List UInt8)) : Prop where
  fed : streamFed sessionId chunks = streamKept sessionId chunks
  record : ∀ parse, readStream parse sessionId chunks =
    (streamKept sessionId chunks).foldl (feedBytes parse) {}

/-! ## The condition -/

/-- No line in which the buffer is cleared comes to its newline. -/
def DroppedUnterminated (chunks : List (List UInt8)) : Prop :=
  ∀ line ∈ (splitLines (endMark isNewline) (marked chunks)).1,
    outgrows maxSseBuf 0 line = false

/-! ## Results -/

/-- The collector is that of the lines that are fed. -/
theorem readStream_eq_fed (parse : String → Option Json) (sessionId : String)
    (chunks : List (List UInt8)) :
    readStream parse sessionId chunks =
      (streamFed sessionId chunks).foldl (feedBytes parse) {} := by
  unfold readStream streamFed
  split
  · rfl
  · exact readChunks_eq_fedLines isNewline (feedBytes parse) maxSseBuf {} [] chunks

/-- **Dropped lines are dropped whole just if their newlines never arrive.** -/
theorem dropped_whole_iff (sessionId : String) (chunks : List (List UInt8)) :
    DroppedWhole sessionId chunks ↔ sessionId = "" ∨ DroppedUnterminated chunks := by
  constructor
  · intro h
    by_cases hsession : sessionId = ""
    · exact .inl hsession
    · have hfed := h.fed
      rw [streamFed, streamKept, if_neg hsession, if_neg hsession] at hfed
      exact .inr ((fedLines_eq_iff isNewline maxSseBuf chunks).mp hfed)
  · intro h
    have hfed : streamFed sessionId chunks = streamKept sessionId chunks := by
      unfold streamFed streamKept
      split
      · rfl
      · next hsession =>
        exact (fedLines_eq_iff isNewline maxSseBuf chunks).mpr (h.resolve_left hsession)
    refine ⟨hfed, fun parse => ?_⟩
    rw [readStream_eq_fed, hfed]

/-- A line that is too long, without its end. -/
def longBeginning : List UInt8 := List.replicate (maxSseBuf + 1) 120

/-- The end of that line happens to look like a line with an id. -/
def longEnd : List UInt8 := ("data: " ++ idText ++ "\n").toList.map fun c => c.toNat.toUInt8

theorem longBeginning_not_end : ∀ x ∈ longBeginning, isNewline x = false := by
  intro x hx
  rw [List.eq_of_mem_replicate hx]
  rfl

/-- **The end of a dropped line is recorded.** -/
theorem dropped_line_end_is_fed :
    (readStream parseId "s" [longBeginning, longEnd]).id = some "x" ∧
      ¬ DroppedWhole "s" [longBeginning, longEnd] := by
  have hlong : maxSseBuf < longBeginning.length := by
    rw [longBeginning, List.length_replicate]
    omega
  have hcleared : bufferAfter isNewline maxSseBuf [] longBeginning = [] := by
    rw [bufferAfter, List.nil_append, splitLines_of_not_end isNewline longBeginning_not_end,
      if_pos hlong]
  have hfed : streamFed "s" [longBeginning, longEnd] = [longEnd] := by
    rw [streamFed, if_neg (by decide), fedLines, hcleared, List.nil_append,
      splitLines_of_not_end isNewline longBeginning_not_end]
    decide
  constructor
  · rw [readStream_eq_fed, hfed]
    decide
  · intro h
    have hnever := (fedLines_eq_iff isNewline maxSseBuf [longBeginning, longEnd]).mp h.fed
    obtain ⟨line, hline, hout⟩ := exists_outgrown isNewline maxSseBuf longBeginning_not_end hlong
      ⟨10, (by decide : (10 : UInt8) ∈ longEnd), rfl⟩
    rw [hnever line hline] at hout
    exact absurd hout (by simp)

end LlmCtl
