/-
# Lines out of chunks

A sequence arrives in chunks, and is consumed line by line: the chunk is appended to a buffer,
and as long as the buffer holds a terminator, everything up to it is taken off and handed
on.  What is left is the beginning of the next line.  A buffer that has grown too large is
cleared.

* `splitLines` says what the lines of a sequence are, `drain_eq` that the loop takes off these
  lines, and `splitLines_append` how they continue over a chunk boundary;
* `readChunks_eq`: without long lines, the result does not depend on the chunks;
* `readLine` takes one line off a buffer that more reads fill up, and `readLine_eq` says which;
* `splitInclusive` are all lines, the last one included, and `splitInclusive_readLine` that
  `readLine` takes them one by one.
-/
import Mathlib.Data.List.Basic
import Mathlib.Data.List.Infix

namespace LineBuffer

variable {α β : Type*} (isEnd : α → Bool)

/-! ## Lines -/

/-- The terminated lines of a sequence, with their terminators, and the rest. -/
def splitLines : List α → List (List α) × List α
  | [] => ([], [])
  | x :: xs =>
    if isEnd x then ([x] :: (splitLines xs).1, (splitLines xs).2)
    else
      match splitLines xs with
      | ([], rest) => ([], x :: rest)
      | (line :: lines, rest) => ((x :: line) :: lines, rest)

/-- The first terminated line of a sequence, and what follows it. -/
def takeLine (xs : List α) : Option (List α × List α) :=
  (xs.findIdx? isEnd).map fun pos => (xs.take (pos + 1), xs.drop (pos + 1))

theorem takeLine_cons (x : α) (xs : List α) :
    takeLine isEnd (x :: xs) =
      if isEnd x then some ([x], xs)
      else (takeLine isEnd xs).map fun p => (x :: p.1, p.2) := by
  unfold takeLine
  rw [List.findIdx?_cons]
  by_cases hx : isEnd x
  · rw [if_pos hx, if_pos hx]
    rfl
  · rw [if_neg hx, if_neg hx, Option.map_map, Option.map_map]
    rfl

/-- The lines of a sequence, by its first line. -/
theorem splitLines_eq (xs : List α) :
    splitLines isEnd xs =
      match takeLine isEnd xs with
      | none => ([], xs)
      | some (line, rest) => (line :: (splitLines isEnd rest).1, (splitLines isEnd rest).2) := by
  induction xs with
  | nil => rfl
  | cons x xs ih =>
    rw [takeLine_cons, splitLines]
    by_cases hx : isEnd x
    · rw [if_pos hx, if_pos hx]
    · rw [if_neg hx, if_neg hx, ih]
      cases takeLine isEnd xs <;> rfl

theorem length_of_takeLine {xs line rest : List α} (h : takeLine isEnd xs = some (line, rest)) :
    rest.length < xs.length := by
  obtain ⟨pos, hpos, hp⟩ := Option.map_eq_some_iff.mp h
  obtain ⟨-, rfl⟩ := Prod.mk.inj hp
  have hlt : pos < xs.length := (List.findIdx?_eq_some_iff_getElem.mp hpos).1
  rw [List.length_drop]
  omega

/-! ## The loop over a buffer -/

/-- As long as there is a terminated line in the buffer, it is taken off and handed to `f`. -/
def drain (f : β → List α → β) (b : β) (buf : List α) : β × List α :=
  match _h : takeLine isEnd buf with
  | none => (b, buf)
  | some (line, rest) => drain f (f b line) rest
termination_by buf.length
decreasing_by exact length_of_takeLine isEnd ‹_›

/-- **The loop hands on the lines of the buffer and leaves the rest.** -/
theorem drain_eq (f : β → List α → β) (b : β) (buf : List α) :
    drain isEnd f b buf = ((splitLines isEnd buf).1.foldl f b, (splitLines isEnd buf).2) := by
  fun_induction drain isEnd f b buf with
  | case1 b buf h => rw [splitLines_eq, h, List.foldl_nil]
  | case2 b buf line rest h ih => rw [ih, splitLines_eq isEnd buf, h, List.foldl_cons]

/-! ## Chunk boundaries -/

/-- The lines of two parts: those of the first part, then those of its rest with the second
part. -/
theorem splitLines_append (xs ys : List α) :
    splitLines isEnd (xs ++ ys) =
      ((splitLines isEnd xs).1 ++ (splitLines isEnd ((splitLines isEnd xs).2 ++ ys)).1,
        (splitLines isEnd ((splitLines isEnd xs).2 ++ ys)).2) := by
  induction xs with
  | nil => rfl
  | cons x xs ih =>
    rw [List.cons_append, splitLines, splitLines, ih]
    by_cases hx : isEnd x
    · rw [if_pos hx, if_pos hx, List.cons_append]
    · rw [if_neg hx, if_neg hx]
      -- Without a line in the first part, the element joins the first line of the rest.
      cases hl : splitLines isEnd xs with
      | mk lines rest =>
        cases lines with
        | nil =>
          simp only [List.nil_append, List.cons_append]
          rw [splitLines, if_neg hx]
        | cons line lines => rfl

/-- The rest is the end of the sequence. -/
theorem rest_suffix (xs : List α) : (splitLines isEnd xs).2 <:+ xs := by
  generalize hn : xs.length = n
  induction n using Nat.strongRecOn generalizing xs with
  | ind n ih =>
    rw [splitLines_eq]
    cases h : takeLine isEnd xs with
    | none => exact List.suffix_rfl
    | some p =>
      obtain ⟨line, rest⟩ := p
      have hlt := length_of_takeLine isEnd h
      have hrest : rest <:+ xs := by
        obtain ⟨pos, -, hp⟩ := Option.map_eq_some_iff.mp h
        rw [← (Prod.mk.inj hp).2]
        exact List.drop_suffix _ _
      exact (ih rest.length (hn ▸ hlt) rest rfl).trans hrest

/-- The rest has no terminator. -/
theorem rest_not_end (xs : List α) : ∀ x ∈ (splitLines isEnd xs).2, isEnd x = false := by
  induction xs with
  | nil => exact fun x hx => absurd hx List.not_mem_nil
  | cons x xs ih =>
    rw [splitLines]
    split
    · exact ih
    · next hx =>
      cases hl : splitLines isEnd xs with
      | mk lines rest =>
        rw [hl] at ih
        cases lines with
        | nil =>
          intro y hy
          rcases List.mem_cons.mp hy with rfl | hy
          · simpa using hx
          · exact ih y hy
        | cons line lines => exact ih

/-- Without a terminator there is no line. -/
theorem splitLines_of_not_end {xs : List α} (h : ∀ x ∈ xs, isEnd x = false) :
    splitLines isEnd xs = ([], xs) := by
  have hnone : takeLine isEnd xs = none := by
    rw [takeLine, List.findIdx?_eq_none_iff.mpr h]
    rfl
  rw [splitLines_eq, hnone]

/-! ## The loop over the chunks -/

/-- The loop's state after a chunk. -/
def readChunk (f : β → List α → β) (bound : ℕ) (s : β × List α) (chunk : List α) : β × List α :=
  let r := drain isEnd f s.1 (s.2 ++ chunk)
  (r.1, if bound < r.2.length then [] else r.2)

/-- The loop's state after all chunks. -/
def readChunks (f : β → List α → β) (bound : ℕ) (s : β × List α) (chunks : List (List α)) :
    β × List α := chunks.foldl (readChunk isEnd f bound) s

/-- No stretch without a terminator is longer than the bound. -/
def ShortLines (bound : ℕ) (xs : List α) : Prop :=
  ∀ seg, seg <:+: xs → (∀ x ∈ seg, isEnd x = false) → seg.length ≤ bound

/-- **Chunks do not matter.**  Without long lines the buffer is never cleared, and the result is
that of the lines of the whole sequence. -/
theorem readChunks_eq (f : β → List α → β) {bound : ℕ} (b : β) {buf : List α}
    (hbuf : ∀ x ∈ buf, isEnd x = false) (chunks : List (List α))
    (h : ShortLines isEnd bound (buf ++ chunks.flatten)) :
    (readChunks isEnd f bound (b, buf) chunks).1
      = (splitLines isEnd (buf ++ chunks.flatten)).1.foldl f b := by
  induction chunks generalizing b buf with
  | nil =>
    rw [List.flatten_nil, List.append_nil, splitLines_of_not_end isEnd hbuf]
    rfl
  | cons chunk chunks ih =>
    rw [List.flatten_cons, ← List.append_assoc] at h ⊢
    -- What is left after the chunk lies in one line, and is kept.
    have hsuffix := rest_suffix isEnd (buf ++ chunk)
    have hnotend := rest_not_end isEnd (buf ++ chunk)
    have hshort : (splitLines isEnd (buf ++ chunk)).2.length ≤ bound :=
      h _ (hsuffix.isInfix.trans (List.infix_append' [] _ _)) hnotend
    have hstep : readChunk isEnd f bound (b, buf) chunk
        = ((splitLines isEnd (buf ++ chunk)).1.foldl f b,
            (splitLines isEnd (buf ++ chunk)).2) := by
      rw [readChunk, drain_eq]
      simp only [if_neg (Nat.not_lt.mpr hshort)]
    have hrest : ShortLines isEnd bound
        ((splitLines isEnd (buf ++ chunk)).2 ++ chunks.flatten) := by
      obtain ⟨before, hbefore⟩ := hsuffix
      intro seg hseg
      refine h seg (hseg.trans ⟨before, [], ?_⟩)
      rw [List.append_nil, ← List.append_assoc, hbefore]
    have htail := ih ((splitLines isEnd (buf ++ chunk)).1.foldl f b) hnotend hrest
    rw [readChunks, List.foldl_cons, hstep, splitLines_append isEnd (buf ++ chunk),
      List.foldl_append]
    exact htail

/-! ## Reading one line -/

/-- Read up to a terminator, or to the end: first what is left in the buffer, then what the reads
yield.  What follows the terminator stays in the buffer. -/
def readLine (buf : List α) : List (List α) → List α × List α × List (List α)
  | [] =>
    match takeLine isEnd buf with
    | some (line, rest) => (line, rest, [])
    | none => (buf, [], [])
  | chunk :: chunks =>
    match takeLine isEnd buf with
    | some (line, rest) => (line, rest, chunk :: chunks)
    | none =>
      let r := readLine chunk chunks
      (buf ++ r.1, r.2)

theorem append_of_takeLine {xs line rest : List α} (h : takeLine isEnd xs = some (line, rest)) :
    line ++ rest = xs := by
  obtain ⟨pos, -, hp⟩ := Option.map_eq_some_iff.mp h
  obtain ⟨rfl, rfl⟩ := Prod.mk.inj hp
  exact List.take_append_drop _ _

/-- A line ends where it ended, whatever follows. -/
theorem takeLine_append_of_some {xs line rest : List α}
    (h : takeLine isEnd xs = some (line, rest)) (ys : List α) :
    takeLine isEnd (xs ++ ys) = some (line, rest ++ ys) := by
  induction xs generalizing line rest with
  | nil => exact absurd h (by simp [takeLine])
  | cons x xs ih =>
    rw [takeLine_cons] at h
    rw [List.cons_append, takeLine_cons]
    by_cases hx : isEnd x
    · rw [if_pos hx] at h ⊢
      obtain ⟨rfl, rfl⟩ := Prod.mk.inj (Option.some.inj h)
      rfl
    · rw [if_neg hx] at h ⊢
      obtain ⟨⟨l, r⟩, hl, heq⟩ := Option.map_eq_some_iff.mp h
      obtain ⟨rfl, rfl⟩ := Prod.mk.inj heq
      rw [ih hl]
      rfl

/-- What has no terminator is the beginning of the line that follows. -/
theorem takeLine_append_of_none {xs : List α} (h : takeLine isEnd xs = none) (ys : List α) :
    takeLine isEnd (xs ++ ys) = (takeLine isEnd ys).map fun p => (xs ++ p.1, p.2) := by
  induction xs with
  | nil =>
    rw [List.nil_append]
    cases takeLine isEnd ys <;> rfl
  | cons x xs ih =>
    rw [takeLine_cons] at h
    rw [List.cons_append, takeLine_cons]
    by_cases hx : isEnd x
    · rw [if_pos hx] at h
      exact absurd h (by simp)
    · rw [if_neg hx] at h ⊢
      rw [ih (Option.map_eq_none_iff.mp h), Option.map_map]
      rfl

/-- **Reads do not matter for a line**: it is the first line of the whole sequence, or all of it,
and what follows is what is left. -/
theorem readLine_eq (buf : List α) (reads : List (List α)) :
    match takeLine isEnd (buf ++ reads.flatten) with
    | some (line, rest) => (readLine isEnd buf reads).1 = line ∧
        (readLine isEnd buf reads).2.1 ++ (readLine isEnd buf reads).2.2.flatten = rest
    | none => readLine isEnd buf reads = (buf ++ reads.flatten, [], []) := by
  induction reads generalizing buf with
  | nil =>
    rw [List.flatten_nil, List.append_nil, readLine]
    cases takeLine isEnd buf with
    | none => rfl
    | some p => exact ⟨rfl, List.append_nil _⟩
  | cons chunk chunks ih =>
    rw [List.flatten_cons, readLine]
    cases h : takeLine isEnd buf with
    | some p =>
      rw [takeLine_append_of_some isEnd h]
      exact ⟨rfl, rfl⟩
    | none =>
      rw [takeLine_append_of_none isEnd h]
      have hrest := ih chunk
      cases ht : takeLine isEnd (chunk ++ chunks.flatten) with
      | some p =>
        rw [ht] at hrest
        exact ⟨congrArg (buf ++ ·) hrest.1, hrest.2⟩
      | none =>
        rw [ht] at hrest
        simp only [Option.map_none, hrest]

/-- Nothing is lost. -/
theorem readLine_append (buf : List α) (reads : List (List α)) :
    (readLine isEnd buf reads).1 ++ ((readLine isEnd buf reads).2.1 ++
      (readLine isEnd buf reads).2.2.flatten) = buf ++ reads.flatten := by
  have h := readLine_eq isEnd buf reads
  cases ht : takeLine isEnd (buf ++ reads.flatten) with
  | some p =>
    rw [ht] at h
    rw [h.1, h.2, append_of_takeLine isEnd ht]
  | none =>
    rw [ht] at h
    rw [h, List.flatten_nil, List.append_nil, List.append_nil]

/-- What is still to be read gets shorter with every line. -/
theorem length_of_readLine {buf : List α} {reads : List (List α)}
    (h : (readLine isEnd buf reads).1 ≠ []) :
    ((readLine isEnd buf reads).2.1 ++ (readLine isEnd buf reads).2.2.flatten).length
      < (buf ++ reads.flatten).length := by
  have hall := congrArg List.length (readLine_append isEnd buf reads)
  have hline := List.length_pos_iff.mpr h
  rw [List.length_append] at hall
  omega

/-! ## All lines -/

/-- `split_inclusive`: the lines with their terminators; the last one may have none. -/
def splitInclusive (xs : List α) : List (List α) :=
  (splitLines isEnd xs).1 ++
    match (splitLines isEnd xs).2 with
    | [] => []
    | x :: rest => [x :: rest]

/-- The lines, by the first one. -/
theorem splitInclusive_eq (xs : List α) :
    splitInclusive isEnd xs = match takeLine isEnd xs with
      | some (line, rest) => line :: splitInclusive isEnd rest
      | none => match xs with
        | [] => []
        | x :: rest => [x :: rest] := by
  rw [splitInclusive, splitLines_eq]
  cases takeLine isEnd xs <;> rfl

/-- A terminated line in front. -/
theorem splitInclusive_append {line : List α} (hline : ∀ x ∈ line, isEnd x = false) {e : α}
    (he : isEnd e = true) (rest : List α) :
    splitInclusive isEnd (line ++ e :: rest) = (line ++ [e]) :: splitInclusive isEnd rest := by
  have hnone : takeLine isEnd line = none := by
    rw [takeLine, List.findIdx?_eq_none_iff.mpr hline]
    rfl
  have htake : takeLine isEnd (line ++ e :: rest) = some (line ++ [e], rest) := by
    rw [takeLine_append_of_none isEnd hnone, takeLine_cons, if_pos he]
    rfl
  rw [splitInclusive_eq, htake]

/-- A first line is not empty. -/
theorem ne_nil_of_takeLine {xs line rest : List α} (h : takeLine isEnd xs = some (line, rest)) :
    line ≠ [] := by
  rintro rfl
  have hlen := length_of_takeLine isEnd h
  rw [← append_of_takeLine isEnd h, List.nil_append] at hlen
  exact absurd hlen (Nat.lt_irrefl _)

/-- A line that is read is the first one of what is still to be read. -/
theorem splitInclusive_readLine {buf : List α} {reads : List (List α)}
    (h : (readLine isEnd buf reads).1 ≠ []) :
    splitInclusive isEnd (buf ++ reads.flatten) =
      (readLine isEnd buf reads).1 :: splitInclusive isEnd
        ((readLine isEnd buf reads).2.1 ++ (readLine isEnd buf reads).2.2.flatten) := by
  have hread := readLine_eq isEnd buf reads
  rw [splitInclusive_eq]
  cases ht : takeLine isEnd (buf ++ reads.flatten) with
  | some p =>
    rw [ht] at hread
    rw [hread.1, hread.2]
  | none =>
    -- The last line, without a terminator: nothing follows it.
    rw [ht] at hread
    rw [hread] at h ⊢
    cases hall : buf ++ reads.flatten with
    | nil => exact absurd hall h
    | cons x rest => rfl

/-- Nothing is read at the end only. -/
theorem splitInclusive_of_readLine_nil {buf : List α} {reads : List (List α)}
    (h : (readLine isEnd buf reads).1 = []) : splitInclusive isEnd (buf ++ reads.flatten) = [] := by
  have hread := readLine_eq isEnd buf reads
  cases ht : takeLine isEnd (buf ++ reads.flatten) with
  | some p =>
    rw [ht] at hread
    exact absurd (hread.1.symm.trans h) (ne_nil_of_takeLine isEnd ht)
  | none =>
    rw [ht] at hread
    rw [hread] at h
    rw [show buf ++ reads.flatten = [] from h]
    rfl

end LineBuffer
