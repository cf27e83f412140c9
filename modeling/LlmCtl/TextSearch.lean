/-
# Markers in a text

A marker is looked for in a text from left to right.  `find` and `split` do so on what is left of
the text; `firstIn` and `marksFrom` say at which places of the whole text the marker stands.

* `find_slice`: `find` finds the first place in a part of the text;
* `split_eq`: the pieces of `split` are what lies between one marker and the next.
-/
import Mathlib.Data.List.Basic
import Mathlib.Data.List.Infix
import Mathlib.Data.Nat.Find
import Mathlib.Tactic.Common

/-- What is looked for. -/
structure Marker (α : Type*) where
  text : List α
  nonempty : text ≠ []

namespace Marker

variable {α : Type*} [DecidableEq α]

/-- The number of characters. -/
def length (m : Marker α) : ℕ := m.text.length

omit [DecidableEq α] in
theorem length_pos (m : Marker α) : 0 < m.length := List.length_pos_iff.mpr m.nonempty

/-! ## Places -/

/-- The marker stands at a place of the text. -/
def At (m : Marker α) (s : List α) (i : ℕ) : Prop := m.text <+: s.drop i

instance (m : Marker α) (s : List α) (i : ℕ) : Decidable (m.At s i) :=
  inferInstanceAs (Decidable (m.text <+: s.drop i))

/-- The part of a text between two places. -/
def slice (s : List α) (lo hi : ℕ) : List α := (s.take hi).drop lo

omit [DecidableEq α] in
/-- Two parts of the text, one after the other. -/
theorem slice_append {s : List α} {lo mid hi : ℕ} (hlo : lo ≤ mid) (hhi : mid ≤ hi) :
    slice s lo mid ++ slice s mid hi = slice s lo hi := by
  have hfirst : slice s lo mid = ((s.take hi).take mid).drop lo := by
    rw [slice, List.take_take, Nat.min_eq_left hhi]
  have hsecond : slice s mid hi = ((s.take hi).drop mid).drop 0 := by
    rw [slice, List.drop_zero]
  rw [hfirst, List.drop_take, hsecond, List.drop_zero, slice]
  calc ((s.take hi).drop lo).take (mid - lo) ++ (s.take hi).drop mid
      = ((s.take hi).drop lo).take (mid - lo) ++ ((s.take hi).drop lo).drop (mid - lo) := by
        rw [List.drop_drop, Nat.add_sub_cancel' hlo]
    _ = (s.take hi).drop lo := List.take_append_drop _ _

omit [DecidableEq α] in
/-- The beginning of a part. -/
theorem take_slice {s : List α} {lo hi n : ℕ} (h : lo + n ≤ hi) :
    (slice s lo hi).take n = slice s lo (lo + n) := by
  rw [slice, slice, List.drop_take, List.drop_take, List.take_take]
  congr 1
  omega

omit [DecidableEq α] in
/-- Where the marker stands, it can be read. -/
theorem At.slice {m : Marker α} {s : List α} {i : ℕ} (h : m.At s i) :
    Marker.slice s i (i + m.length) = m.text := by
  rw [Marker.slice, List.drop_take, Nat.add_sub_cancel_left]
  exact (List.prefix_iff_eq_take.mp h).symm

/-- The first place between two others where the marker stands, all of it between them. -/
def firstIn (m : Marker α) (s : List α) (lo hi : ℕ) : Option ℕ :=
  (List.range' lo (hi - lo)).find? fun i => decide (m.At s i ∧ i + m.length ≤ hi)

omit [DecidableEq α] in
/-- The marker ends within the text. -/
theorem At.le {m : Marker α} {s : List α} {i : ℕ} (h : m.At s i) : i + m.length ≤ s.length := by
  have hlen := h.length_le
  have hpos := m.length_pos
  rw [List.length_drop] at hlen
  unfold length at hpos ⊢
  omega

theorem firstIn_eq_some_iff {m : Marker α} {s : List α} {lo hi i : ℕ} :
    m.firstIn s lo hi = some i ↔
      (lo ≤ i ∧ m.At s i ∧ i + m.length ≤ hi) ∧ ∀ j, lo ≤ j → j < i → ¬ m.At s j := by
  have hpos := m.length_pos
  rw [firstIn, List.find?_range'_eq_some, List.mem_range'_1, decide_eq_true_eq]
  constructor
  · rintro ⟨⟨hat, hhi⟩, ⟨hlo, -⟩, hfirst⟩
    refine ⟨⟨hlo, hat, hhi⟩, fun j hj hji hatj => ?_⟩
    have hnot := hfirst j hj hji
    rw [Bool.not_eq_true', decide_eq_false_iff_not] at hnot
    exact hnot ⟨hatj, by omega⟩
  · rintro ⟨⟨hlo, hat, hhi⟩, hfirst⟩
    refine ⟨⟨hat, hhi⟩, ⟨hlo, by omega⟩, fun j hj hji => ?_⟩
    rw [Bool.not_eq_true', decide_eq_false_iff_not]
    exact fun hatj => hfirst j hj hji hatj.1

theorem firstIn_eq_none_iff {m : Marker α} {s : List α} {lo hi : ℕ} :
    m.firstIn s lo hi = none ↔ ∀ i, lo ≤ i → i + m.length ≤ hi → ¬ m.At s i := by
  have hpos := m.length_pos
  rw [firstIn, List.find?_range'_eq_none]
  constructor
  · intro h i hlo hhi hat
    have hnot := h i hlo (by omega)
    rw [Bool.not_eq_true', decide_eq_false_iff_not] at hnot
    exact hnot ⟨hat, hhi⟩
  · intro h i hlo _
    rw [Bool.not_eq_true', decide_eq_false_iff_not]
    exact fun hat => h i hlo hat.2 hat.1

omit [DecidableEq α] in
/-- The places of a part of the text. -/
theorem at_slice {m : Marker α} {s : List α} {lo hi i : ℕ} :
    m.At (slice s lo hi) i ↔ m.At s (lo + i) ∧ lo + i + m.length ≤ hi := by
  have hpos := m.length_pos
  rw [At, slice, List.drop_drop, List.drop_take, List.prefix_take_iff]
  refine and_congr_right fun _ => ?_
  unfold length at hpos ⊢
  omega

/-! ## `find` -/

/-- `str::find`: the first place where the marker stands. -/
def find (m : Marker α) : List α → Option ℕ
  | [] => none
  | c :: s => if m.text <+: c :: s then some 0 else (m.find s).map (· + 1)

theorem find_eq_some_iff {m : Marker α} {s : List α} {i : ℕ} :
    m.find s = some i ↔ m.At s i ∧ ∀ j < i, ¬ m.At s j := by
  induction s generalizing i with
  | nil =>
    refine iff_of_false (by simp [find]) fun h => ?_
    have hle := h.1.le
    have hpos := m.length_pos
    rw [List.length_nil] at hle
    omega
  | cons c s ih =>
    rw [find]
    split
    · next hhead =>
      constructor
      · intro h
        obtain rfl := Option.some.inj h
        exact ⟨hhead, fun j hj => absurd hj (Nat.not_lt_zero j)⟩
      · rintro ⟨-, hfirst⟩
        cases i with
        | zero => rfl
        | succ i => exact absurd hhead (hfirst 0 (Nat.succ_pos i))
    · next hhead =>
      rw [Option.map_eq_some_iff]
      constructor
      · rintro ⟨k, hk, rfl⟩
        obtain ⟨hat, hfirst⟩ := ih.mp hk
        refine ⟨hat, fun j hj => ?_⟩
        cases j with
        | zero => exact hhead
        | succ j => exact hfirst j (Nat.lt_of_succ_lt_succ hj)
      · rintro ⟨hat, hfirst⟩
        cases i with
        | zero => exact absurd hat hhead
        | succ i => exact ⟨i, ih.mpr ⟨hat, fun j hj => hfirst (j + 1) (Nat.succ_lt_succ hj)⟩, rfl⟩

theorem find_eq_none_iff {m : Marker α} {s : List α} : m.find s = none ↔ ∀ i, ¬ m.At s i := by
  constructor
  · intro h i hat
    -- The least place would have been found.
    have hex : ∃ k, m.At s k := ⟨i, hat⟩
    have hfound : m.find s = some (Nat.find hex) :=
      find_eq_some_iff.mpr ⟨Nat.find_spec hex, fun j hj => Nat.find_min hex hj⟩
    rw [h] at hfound
    exact absurd hfound (by simp)
  · intro h
    by_contra hne
    obtain ⟨i, hi⟩ := Option.ne_none_iff_exists'.mp hne
    exact h i (find_eq_some_iff.mp hi).1

/-- **`find` finds the first place in a part of the text.** -/
theorem find_slice (m : Marker α) (s : List α) (lo hi : ℕ) :
    m.find (slice s lo hi) = (m.firstIn s lo hi).map (· - lo) := by
  cases h : m.firstIn s lo hi with
  | none =>
    refine find_eq_none_iff.mpr fun i hat => ?_
    obtain ⟨hat, hhi⟩ := at_slice.mp hat
    exact firstIn_eq_none_iff.mp h (lo + i) (Nat.le_add_right lo i) hhi hat
  | some i =>
    obtain ⟨⟨hlo, hat, hhi⟩, hfirst⟩ := firstIn_eq_some_iff.mp h
    refine find_eq_some_iff.mpr ⟨at_slice.mpr ?_, fun j (hj : j < i - lo) hatj => ?_⟩
    · rw [Nat.add_sub_cancel' hlo]
      exact ⟨hat, hhi⟩
    · exact hfirst (lo + j) (Nat.le_add_right lo j) (by omega) (at_slice.mp hatj).1

/-! ## `split` -/

theorem length_of_find {m : Marker α} {s : List α} {i : ℕ} (h : m.find s = some i) :
    (s.drop (i + m.length)).length < s.length := by
  have hle := (find_eq_some_iff.mp h).1.le
  have hpos := m.length_pos
  rw [List.length_drop]
  omega

/-- `str::split`: the pieces between the markers. -/
def split (m : Marker α) (s : List α) : List (List α) :=
  match _ : m.find s with
  | none => [s]
  | some i => s.take i :: m.split (s.drop (i + m.length))
termination_by s.length
decreasing_by exact length_of_find ‹_›

/-- The places of the markers from a place on, from left to right, without overlap. -/
def marksFrom (m : Marker α) (s : List α) (lo : ℕ) : List ℕ :=
  match _ : m.firstIn s lo s.length with
  | none => []
  | some p => p :: m.marksFrom s (p + m.length)
termination_by s.length - lo
decreasing_by
  obtain ⟨⟨hlo, -, hhi⟩, -⟩ := firstIn_eq_some_iff.mp ‹_›
  have hpos := m.length_pos
  omega

/-- The pieces of the text from a place on. -/
theorem split_drop (m : Marker α) (s : List α) (lo : ℕ) :
    m.split (s.drop lo) = List.zipWith (slice s) (lo :: (m.marksFrom s lo).map (· + m.length))
      (m.marksFrom s lo ++ [s.length]) := by
  have hslice (lo : ℕ) : s.drop lo = slice s lo s.length := by rw [slice, List.take_length]
  fun_induction marksFrom m s lo with
  | case1 lo h =>
    have hfind : m.find (s.drop lo) = none := by
      rw [hslice, find_slice, h, Option.map_none]
    rw [split]
    split
    · rw [hslice]
      rfl
    · next i hi =>
      rw [hfind] at hi
      exact absurd hi (by simp)
  | case2 lo p h ih =>
    obtain ⟨⟨hlo, -, -⟩, -⟩ := firstIn_eq_some_iff.mp h
    have hfind : m.find (s.drop lo) = some (p - lo) := by
      rw [hslice, find_slice, h, Option.map_some]
    rw [split]
    split
    · next hi =>
      rw [hfind] at hi
      exact absurd hi (by simp)
    · next i hi =>
      obtain rfl := Option.some.inj (hfind.symm.trans hi)
      have hrest : (s.drop lo).drop (p - lo + m.length) = s.drop (p + m.length) := by
        rw [List.drop_drop]
        congr 1
        omega
      have hpiece : (s.drop lo).take (p - lo) = slice s lo p := by
        rw [slice, List.drop_take]
      rw [hrest, ih, hpiece]
      rfl

/-- **The pieces lie between one marker and the next.** -/
theorem split_eq (m : Marker α) (s : List α) :
    m.split s = List.zipWith (slice s) (0 :: (m.marksFrom s 0).map (· + m.length))
      (m.marksFrom s 0 ++ [s.length]) := split_drop m s 0

/-- A marker, with the place where the next one stands, or where the text ends. -/
def spans (m : Marker α) (s : List α) : List (ℕ × ℕ) :=
  (m.marksFrom s 0).zip (m.marksFrom s 0 ++ [s.length]).tail

/-- What follows the markers. -/
theorem drop_split (m : Marker α) (s : List α) :
    (m.split s).drop 1 = (m.spans s).map fun p => slice s (p.1 + m.length) p.2 := by
  rw [split_eq, List.drop_zipWith, List.drop_one, List.drop_one, List.tail_cons, spans,
    List.zipWith_map_left, List.map_zip_eq_zipWith]
  rfl

theorem marksFrom_bounds {m : Marker α} {s : List α} {lo : ℕ} :
    ∀ p ∈ m.marksFrom s lo, lo ≤ p ∧ m.At s p := by
  fun_induction marksFrom m s lo with
  | case1 lo h => exact fun p hp => absurd hp List.not_mem_nil
  | case2 lo q h ih =>
    obtain ⟨⟨hlo, hat, -⟩, -⟩ := firstIn_eq_some_iff.mp h
    refine List.forall_mem_cons.mpr ⟨⟨hlo, hat⟩, fun p hp => ?_⟩
    exact ⟨by have hle := (ih p hp).1; omega, (ih p hp).2⟩

/-- The next marker does not overlap. -/
theorem zip_marksFrom {m : Marker α} {s : List α} (lo : ℕ) :
    ∀ p ∈ (m.marksFrom s lo).zip (m.marksFrom s lo ++ [s.length]).tail,
      m.At s p.1 ∧ p.1 + m.length ≤ p.2 ∧ p.2 ≤ s.length := by
  fun_induction marksFrom m s lo with
  | case1 lo h => exact fun p hp => absurd hp List.not_mem_nil
  | case2 lo q h ih =>
    have hat := (firstIn_eq_some_iff.mp h).1.2.1
    rw [List.cons_append, List.tail_cons]
    cases hrest : m.marksFrom s (q + m.length) with
    | nil =>
      intro p hp
      obtain rfl := List.mem_singleton.mp hp
      exact ⟨hat, hat.le, le_rfl⟩
    | cons r rest =>
      rw [hrest] at ih
      have hr := marksFrom_bounds r (by rw [hrest]; exact List.mem_cons_self)
      refine List.forall_mem_cons.mpr ⟨⟨hat, hr.1, ?_⟩, ih⟩
      have hle := hr.2.le
      show r ≤ s.length
      omega

theorem spans_ordered {m : Marker α} {s : List α} :
    ∀ p ∈ m.spans s, m.At s p.1 ∧ p.1 + m.length ≤ p.2 ∧ p.2 ≤ s.length := zip_marksFrom 0

end Marker
