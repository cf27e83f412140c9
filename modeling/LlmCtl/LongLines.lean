/-
# Lines that outgrow the buffer

`LineBuffer.readChunk` clears a buffer that has grown too large.  Where that happens depends on
the chunks: a sequence with a mark at the end of each chunk says when how much of a line had
arrived.

* `fedLines` are the lines that the loop hands on, `keptLines` the lines of the sequence that
  never outgrow the buffer;
* `readChunks_eq_kept`: if no terminated line outgrows the buffer, the loop hands on the kept
  lines, whatever the chunks are;
* `fedLines_eq_iff`: otherwise it does not, since the end of a line that was dropped is handed on
  like a line.
-/
import LlmCtl.LineBuffer
import Mathlib.Data.List.ReduceOption

namespace LineBuffer

variable {α β : Type*} (isEnd : α → Bool)

/-! ## Marks -/

/-- The sequence, with a mark `none` at the end of each chunk. -/
def marked (chunks : List (List α)) : List (Option α) :=
  chunks.flatMap fun chunk => chunk.map some ++ [none]

/-- The sequence without its marks. -/
def unmarked (ts : List (Option α)) : List α := ts.reduceOption

/-- The terminators of a marked sequence. -/
def endMark (t : Option α) : Bool := t.any isEnd

/-- Does a marked line outgrow the buffer: does a chunk end when more than `bound` of its elements
have arrived?  `seen` of them have arrived before. -/
def outgrows (bound : ℕ) : ℕ → List (Option α) → Bool
  | _, [] => false
  | seen, none :: ts => decide (bound < seen) || outgrows bound seen ts
  | seen, some _ :: ts => outgrows bound (seen + 1) ts

@[simp] theorem marked_nil : marked ([] : List (List α)) = [] := rfl

@[simp] theorem marked_cons (chunk : List α) (chunks : List (List α)) :
    marked (chunk :: chunks) = chunk.map some ++ none :: marked chunks := by
  rw [marked, List.flatMap_cons, List.append_assoc]
  rfl

@[simp] theorem unmarked_nil : unmarked ([] : List (Option α)) = [] := rfl

@[simp] theorem unmarked_none (ts : List (Option α)) : unmarked (none :: ts) = unmarked ts := rfl

@[simp] theorem unmarked_some (x : α) (ts : List (Option α)) :
    unmarked (some x :: ts) = x :: unmarked ts := rfl

theorem unmarked_append (ts us : List (Option α)) :
    unmarked (ts ++ us) = unmarked ts ++ unmarked us := List.reduceOption_append ts us

@[simp] theorem unmarked_map_some (xs : List α) : unmarked (xs.map some) = xs := by
  induction xs with
  | nil => rfl
  | cons x xs ih => rw [List.map_cons, unmarked_some, ih]

theorem outgrows_append (bound seen : ℕ) (ts us : List (Option α)) :
    outgrows bound seen (ts ++ us) =
      (outgrows bound seen ts || outgrows bound (seen + (unmarked ts).length) us) := by
  induction ts generalizing seen with
  | nil => simp [outgrows]
  | cons t ts ih =>
    cases t with
    | none => simp only [List.cons_append, outgrows, ih, unmarked_none, Bool.or_assoc]
    | some x =>
      have hseen : seen + 1 + (unmarked ts).length = seen + (x :: unmarked ts).length := by
        rw [List.length_cons]
        omega
      simp only [List.cons_append, outgrows, ih, unmarked_some, hseen]

/-! ## Marks and lines -/

/-- An element that ends no line joins the rest. -/
theorem splitLines_concat {x : α} (hx : isEnd x = false) (xs : List α) :
    splitLines isEnd (xs ++ [x]) = ((splitLines isEnd xs).1, (splitLines isEnd xs).2 ++ [x]) := by
  have hrest : ∀ y ∈ (splitLines isEnd xs).2 ++ [x], isEnd y = false := by
    intro y hy
    rcases List.mem_append.mp hy with hy | hy
    · exact rest_not_end isEnd xs y hy
    · rw [List.mem_singleton.mp hy, hx]
  rw [splitLines_append, splitLines_of_not_end isEnd hrest, List.append_nil]

/-- **Marks do not cut lines**: without them, the marked lines are the lines. -/
theorem splitLines_unmarked (ts : List (Option α)) :
    splitLines isEnd (unmarked ts) =
      ((splitLines (endMark isEnd) ts).1.map unmarked,
        unmarked (splitLines (endMark isEnd) ts).2) := by
  induction ts with
  | nil => rfl
  | cons t ts ih =>
    cases t with
    | none =>
      rw [unmarked_none, ih, splitLines, if_neg (by simp [endMark])]
      cases splitLines (endMark isEnd) ts with
      | mk lines rest => cases lines <;> rfl
    | some x =>
      rw [unmarked_some, splitLines, splitLines, ih]
      by_cases hx : isEnd x
      · rw [if_pos hx, if_pos (show endMark isEnd (some x) = true from hx)]
        rfl
      · rw [if_neg hx, if_neg (show ¬ endMark isEnd (some x) = true from hx)]
        cases splitLines (endMark isEnd) ts with
        | mk lines rest => cases lines <;> rfl

/-- A sequence has as many lines as terminators. -/
theorem length_splitLines (xs : List α) : (splitLines isEnd xs).1.length = xs.countP isEnd := by
  induction xs with
  | nil => rfl
  | cons x xs ih =>
    rw [splitLines, List.countP_cons]
    by_cases hx : isEnd x
    · rw [if_pos hx, if_pos hx, List.length_cons, ih]
    · rw [if_neg hx, if_neg hx, ← ih]
      cases splitLines isEnd xs with
      | mk lines rest => cases lines <;> rfl

/-- What stands before the first terminator belongs to the first line. -/
theorem prefix_of_line {held ts : List α} (hheld : ∀ x ∈ held, isEnd x = false)
    {line : List α} {lines : List (List α)}
    (h : (splitLines isEnd (held ++ ts)).1 = line :: lines) :
    held <+: line := by
  induction held generalizing line lines with
  | nil => exact List.nil_prefix
  | cons x held ih =>
    have hx : isEnd x = false := hheld x List.mem_cons_self
    have htail : ∀ y ∈ held, isEnd y = false := fun y hy => hheld y (List.mem_cons_of_mem x hy)
    rw [List.cons_append, splitLines, if_neg (by simp [hx])] at h
    cases hs : splitLines isEnd (held ++ ts) with
    | mk found rest =>
      rw [hs] at h
      cases found with
      | nil => exact absurd h (by simp)
      | cons first others =>
        obtain ⟨rfl, -⟩ := List.cons.inj h
        have hfirst := ih htail (congrArg Prod.fst hs)
        exact List.cons_prefix_cons.mpr ⟨rfl, hfirst⟩

/-! ## What the loop hands on -/

/-- The buffer after a chunk. -/
def bufferAfter (bound : ℕ) (buf chunk : List α) : List α :=
  if bound < (splitLines isEnd (buf ++ chunk)).2.length then []
  else (splitLines isEnd (buf ++ chunk)).2

/-- The lines that the loop hands on. -/
def fedLines (bound : ℕ) : List α → List (List α) → List (List α)
  | _, [] => []
  | buf, chunk :: chunks =>
    (splitLines isEnd (buf ++ chunk)).1 ++ fedLines bound (bufferAfter isEnd bound buf chunk) chunks

/-- The terminated lines that never outgrow the buffer. -/
def keptLines (bound : ℕ) (chunks : List (List α)) : List (List α) :=
  ((splitLines (endMark isEnd) (marked chunks)).1.filter fun line =>
    !outgrows bound 0 line).map unmarked

/-- **The loop hands on these lines**, in this order. -/
theorem readChunks_eq_fedLines (f : β → List α → β) (bound : ℕ) (b : β) (buf : List α)
    (chunks : List (List α)) :
    (readChunks isEnd f bound (b, buf) chunks).1 = (fedLines isEnd bound buf chunks).foldl f b := by
  induction chunks generalizing b buf with
  | nil => rfl
  | cons chunk chunks ih =>
    have hstep : readChunk isEnd f bound (b, buf) chunk =
        ((splitLines isEnd (buf ++ chunk)).1.foldl f b, bufferAfter isEnd bound buf chunk) := by
      rw [readChunk, drain_eq]
      rfl
    rw [readChunks, List.foldl_cons, hstep, fedLines, List.foldl_append]
    exact ih _ _

/-- What is left in the buffer holds no terminator. -/
theorem bufferAfter_not_end (bound : ℕ) (buf chunk : List α) :
    ∀ x ∈ bufferAfter isEnd bound buf chunk, isEnd x = false := by
  unfold bufferAfter
  split
  · exact fun x hx => absurd hx List.not_mem_nil
  · exact rest_not_end isEnd _

/-- **Every terminator that arrives is the end of something handed on**, also after a line was
dropped. -/
theorem length_fedLines (bound : ℕ) {buf : List α} (hbuf : ∀ x ∈ buf, isEnd x = false)
    (chunks : List (List α)) :
    (fedLines isEnd bound buf chunks).length = chunks.flatten.countP isEnd := by
  induction chunks generalizing buf with
  | nil => rfl
  | cons chunk chunks ih =>
    have hzero : buf.countP isEnd = 0 :=
      List.countP_eq_zero.mpr fun x hx => by simp [hbuf x hx]
    have htail := ih (bufferAfter_not_end isEnd bound buf chunk)
    rw [fedLines, List.length_append, length_splitLines, htail, List.countP_append, hzero,
      List.flatten_cons, List.countP_append, Nat.zero_add]

/-- As many lines are marked as there are terminators. -/
theorem length_marked (chunks : List (List α)) :
    (splitLines (endMark isEnd) (marked chunks)).1.length = chunks.flatten.countP isEnd := by
  rw [length_splitLines]
  induction chunks with
  | nil => rfl
  | cons chunk chunks ih =>
    have hmap : (chunk.map some).countP (endMark isEnd) = chunk.countP isEnd := by
      rw [List.countP_map]
      rfl
    rw [marked_cons, List.countP_append, List.countP_cons, ih, hmap, List.flatten_cons,
      List.countP_append, if_neg (by simp [endMark]), Nat.add_zero]

/-- A line that has outgrown the buffer and is never terminated is followed by nothing. -/
theorem fedLines_of_outgrown (bound : ℕ) {buf : List α} (hbuf : ∀ x ∈ buf, isEnd x = false)
    {held : List (Option α)} (hheld : ∀ t ∈ held, endMark isEnd t = false)
    (hout : outgrows bound 0 held = true) {chunks : List (List α)}
    (h : ∀ line ∈ (splitLines (endMark isEnd) (held ++ marked chunks)).1,
      outgrows bound 0 line = false) :
    fedLines isEnd bound buf chunks = [] ∧
      (splitLines (endMark isEnd) (held ++ marked chunks)).1 = [] := by
  have hnone : (splitLines (endMark isEnd) (held ++ marked chunks)).1 = [] := by
    cases hl : (splitLines (endMark isEnd) (held ++ marked chunks)).1 with
    | nil => rfl
    | cons line lines =>
      -- The first line would begin with what is held.
      obtain ⟨tail, htail⟩ := prefix_of_line (endMark isEnd) hheld hl
      have hline := h line (by rw [hl]; exact List.mem_cons_self)
      rw [← htail, outgrows_append, hout, Bool.true_or] at hline
      exact absurd hline (by simp)
  refine ⟨?_, hnone⟩
  have hcount : (held ++ marked chunks).countP (endMark isEnd) = 0 := by
    rw [← length_splitLines, hnone]
    rfl
  have hmarked := length_marked isEnd chunks
  rw [length_splitLines] at hmarked
  rw [List.countP_append] at hcount
  apply List.eq_nil_of_length_eq_zero
  rw [length_fedLines isEnd bound hbuf, ← hmarked]
  omega

/-- **The loop over the chunks**, in the middle of a line of which `held` has arrived: if no
terminated line outgrows the buffer, the lines are handed on.  As long as the line has not
outgrown the buffer itself, the buffer holds it. -/
theorem fedLines_held (bound : ℕ) {buf : List α} (hbuf : ∀ x ∈ buf, isEnd x = false)
    {held : List (Option α)} (hheld : ∀ t ∈ held, endMark isEnd t = false)
    (hsame : outgrows bound 0 held = false → buf = unmarked held) (chunks : List (List α))
    (h : ∀ line ∈ (splitLines (endMark isEnd) (held ++ marked chunks)).1,
      outgrows bound 0 line = false) :
    fedLines isEnd bound buf chunks =
      (splitLines (endMark isEnd) (held ++ marked chunks)).1.map unmarked := by
  induction chunks generalizing buf held with
  | nil =>
    rw [marked_nil, List.append_nil, splitLines_of_not_end _ hheld]
    rfl
  | cons chunk chunks ih =>
    cases hout : outgrows bound 0 held with
    | true =>
      obtain ⟨hfed, hlines⟩ := fedLines_of_outgrown isEnd bound hbuf hheld hout h
      rw [hfed, hlines]
      rfl
    | false =>
      have hcut : splitLines (endMark isEnd) (held ++ marked (chunk :: chunks)) =
          ((splitLines (endMark isEnd) (held ++ chunk.map some)).1 ++
            (splitLines (endMark isEnd)
              ((splitLines (endMark isEnd) (held ++ chunk.map some)).2 ++ [none] ++
                marked chunks)).1,
            (splitLines (endMark isEnd)
              ((splitLines (endMark isEnd) (held ++ chunk.map some)).2 ++ [none] ++
                marked chunks)).2) := by
        rw [marked_cons, List.append_cons, ← List.append_assoc, ← List.append_assoc,
          splitLines_append, splitLines_concat (endMark isEnd) rfl]
      have hplain := splitLines_unmarked isEnd (held ++ chunk.map some)
      rw [unmarked_append, unmarked_map_some, ← hsame hout] at hplain
      have hrest := rest_not_end (endMark isEnd) (held ++ chunk.map some)
      rw [hcut] at h ⊢
      rw [fedLines, List.map_append, hplain]
      congr 1
      refine ih (bufferAfter_not_end isEnd bound buf chunk) ?_ ?_ ?_
      · intro t ht
        rcases List.mem_append.mp ht with ht | ht
        · exact hrest t ht
        · rw [List.mem_singleton.mp ht]
          rfl
      · intro hsmall
        rw [outgrows_append, Bool.or_eq_false_iff] at hsmall
        have hfits : ¬ bound < (unmarked (splitLines (endMark isEnd)
            (held ++ chunk.map some)).2).length := by
          simpa [outgrows] using hsmall.2
        rw [bufferAfter, hplain, unmarked_append, if_neg hfits]
        exact (List.append_nil _).symm
      · exact fun line hline => h line (List.mem_append_right _ hline)

/-- **Only the end of the last line may be missing**: the loop hands on the lines that do not
outgrow the buffer, and no others, just if no line that outgrows it is terminated. -/
theorem fedLines_eq_iff (bound : ℕ) (chunks : List (List α)) :
    fedLines isEnd bound [] chunks = keptLines isEnd bound chunks ↔
      ∀ line ∈ (splitLines (endMark isEnd) (marked chunks)).1, outgrows bound 0 line = false := by
  constructor
  · intro heq
    have hlen := congrArg List.length heq
    rw [length_fedLines isEnd bound (fun x hx => absurd hx List.not_mem_nil), keptLines,
      List.length_map, ← length_marked isEnd chunks] at hlen
    intro line hline
    have hall := List.length_filter_eq_length_iff.mp hlen.symm line hline
    simpa using hall
  · intro h
    have hfed : fedLines isEnd bound [] chunks =
        (splitLines (endMark isEnd) ([] ++ marked chunks)).1.map unmarked :=
      fedLines_held isEnd bound (fun x hx => absurd hx List.not_mem_nil)
        (fun t ht => absurd ht List.not_mem_nil) (fun _ => rfl) chunks h
    rw [hfed, List.nil_append, keptLines, List.filter_eq_self.mpr]
    intro line hline
    simp [h line hline]

/-- A line of which too much arrives at once outgrows the buffer, also when its end comes next. -/
theorem exists_outgrown (bound : ℕ) {xs ys : List α} (hxs : ∀ x ∈ xs, isEnd x = false)
    (hlong : bound < xs.length) (hend : ∃ y ∈ ys, isEnd y = true) :
    ∃ line ∈ (splitLines (endMark isEnd) (marked [xs, ys])).1, outgrows bound 0 line = true := by
  obtain ⟨y, hy, hyend⟩ := hend
  have hlen := length_marked isEnd [xs, ys]
  have hpos : 0 < [xs, ys].flatten.countP isEnd :=
    List.countP_pos_iff.mpr ⟨y, by simp [hy], hyend⟩
  have hmarked : marked [xs, ys] = (xs.map some ++ [none]) ++ marked [ys] := by simp
  rw [hmarked] at hlen ⊢
  have hheld : ∀ t ∈ xs.map some ++ [none], endMark isEnd t = false := by
    intro t ht
    rcases List.mem_append.mp ht with ht | ht
    · obtain ⟨x, hx, rfl⟩ := List.mem_map.mp ht
      exact hxs x hx
    · rw [List.mem_singleton.mp ht]
      rfl
  cases hl : (splitLines (endMark isEnd) ((xs.map some ++ [none]) ++ marked [ys])).1 with
  | nil =>
    rw [hl, List.length_nil] at hlen
    omega
  | cons line lines =>
    obtain ⟨tail, rfl⟩ := prefix_of_line (endMark isEnd) hheld hl
    refine ⟨_, List.mem_cons_self, ?_⟩
    rw [outgrows_append, outgrows_append, unmarked_map_some]
    simp [outgrows, hlong]

end LineBuffer
