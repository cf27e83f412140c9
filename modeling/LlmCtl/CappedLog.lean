/-
# Logs that keep the latest entries

A log of capacity `n` drops its oldest entries when a new one does not fit.  What it holds is the
end of all that was pushed; and pushing what one such log holds into another loses nothing that
the second one would have kept.

The entries may come from two sources.  `Merge xs ys zs` says that `zs` consists of `xs` and `ys`,
each in its own order.
-/
import Mathlib.Data.List.DropRight
import Mathlib.Data.List.Infix
import Mathlib.Tactic.TypeStar

namespace CappedLog

variable {α : Type*}

/-! ## The end of a list -/

theorem rtake_of_length_le {n : ℕ} {xs : List α} (h : xs.length ≤ n) : xs.rtake n = xs := by
  rw [List.rtake, Nat.sub_eq_zero_of_le h, List.drop_zero]

theorem length_rtake (n : ℕ) (xs : List α) : (xs.rtake n).length = min n xs.length := by
  rw [List.rtake_eq_reverse_take_reverse, List.length_reverse, List.length_take,
    List.length_reverse]

/-- The end of two lists: the end of the second, and of the first as much as is left. -/
theorem rtake_append (n : ℕ) (xs ys : List α) :
    (xs ++ ys).rtake n = xs.rtake (n - ys.length) ++ ys.rtake n := by
  rw [List.rtake_eq_reverse_take_reverse, List.rtake_eq_reverse_take_reverse,
    List.rtake_eq_reverse_take_reverse, List.reverse_append, List.take_append,
    List.reverse_append, List.length_reverse]

theorem rtake_rtake (m n : ℕ) (xs : List α) : (xs.rtake n).rtake m = xs.rtake (min m n) := by
  rw [List.rtake_eq_reverse_take_reverse, List.rtake_eq_reverse_take_reverse,
    List.rtake_eq_reverse_take_reverse, List.reverse_reverse, List.take_take]

/-- **The end of the end**: what comes before the last `n` entries does not matter for the last
`n` entries of a longer list. -/
theorem rtake_append_rtake (n : ℕ) (xs ys : List α) :
    (xs.rtake n ++ ys).rtake n = (xs ++ ys).rtake n := by
  rw [rtake_append, rtake_append, rtake_rtake, Nat.min_eq_left (Nat.sub_le _ _)]

/-- The same on the right. -/
theorem rtake_append_rtake_right (n : ℕ) (xs ys : List α) :
    (xs ++ ys.rtake n).rtake n = (xs ++ ys).rtake n := by
  rw [rtake_append, rtake_append, rtake_rtake, Nat.min_self, length_rtake,
    show n - min n ys.length = n - ys.length by omega]

/-- Of several lists only the ends matter for the end of all. -/
theorem rtake_flatten (n : ℕ) (xss : List (List α)) :
    ((xss.map fun xs => xs.rtake n).flatten).rtake n = xss.flatten.rtake n := by
  induction xss with
  | nil => rfl
  | cons xs xss ih =>
    rw [List.map_cons, List.flatten_cons, List.flatten_cons, rtake_append_rtake,
      ← rtake_append_rtake_right, ih, rtake_append_rtake_right]

/-! ## Pushing -/

/-- The oldest entries go when a new one does not fit. -/
def push (n : ℕ) (log : List α) (x : α) : List α :=
  (if n ≤ log.length then log.drop (log.length - n + 1) else log) ++ [x]

theorem push_eq {n : ℕ} (hn : 0 < n) (log : List α) (x : α) :
    push n log x = (log ++ [x]).rtake n := by
  rw [push, List.rtake, List.length_append, List.length_singleton]
  split
  · next h =>
    rw [List.drop_append_of_le_length (by omega),
      show log.length - n + 1 = log.length + 1 - n by omega]
  · next h => rw [show log.length + 1 - n = 0 by omega, List.drop_zero]

/-- **A log holds the end of what was pushed**: the induction is on what is pushed. -/
theorem foldl_push {n : ℕ} (hn : 0 < n) (log : List α) (hlog : log.length ≤ n) (xs : List α) :
    xs.foldl (push n) log = (log ++ xs).rtake n := by
  induction xs generalizing log with
  | nil => rw [List.foldl_nil, List.append_nil, rtake_of_length_le hlog]
  | cons x xs ih =>
    have hlen : ((log ++ [x]).rtake n).length ≤ n := by
      rw [length_rtake]
      exact Nat.min_le_left _ _
    rw [List.foldl_cons, push_eq hn, ih _ hlen, rtake_append_rtake, List.append_assoc,
      List.singleton_append]

/-- A new log. -/
theorem foldl_push_nil {n : ℕ} (hn : 0 < n) (xs : List α) :
    xs.foldl (push n) [] = xs.rtake n := by
  rw [foldl_push hn [] (Nat.zero_le n), List.nil_append]

/-! ## Two sources -/

/-- `zs` consists of `xs` and `ys`, each in its own order. -/
inductive Merge : List α → List α → List α → Prop
  | nil : Merge [] [] []
  | left {x : α} {xs ys zs : List α} (h : Merge xs ys zs) : Merge (x :: xs) ys (x :: zs)
  | right {y : α} {xs ys zs : List α} (h : Merge xs ys zs) : Merge xs (y :: ys) (y :: zs)

/-- **A list consists of the entries that satisfy `p` and of the others.** -/
theorem merge_filter {β : Type*} (p : β → Bool) (f : β → α) (xs : List β) :
    Merge ((xs.filter p).map f) ((xs.filter fun x => !p x).map f) (xs.map f) := by
  induction xs with
  | nil => exact .nil
  | cons x xs ih =>
    cases hp : p x with
    | true =>
      rw [List.filter_cons_of_pos hp, List.filter_cons_of_neg (by simp [hp])]
      exact .left ih
    | false =>
      rw [List.filter_cons_of_neg (by simp [hp]), List.filter_cons_of_pos (by simp [hp])]
      exact .right ih

end CappedLog
