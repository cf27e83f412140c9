/-
# Append-only tables

A list used as a table that only grows at its end: an entry keeps its index for
good, `List.modify` edits one entry in place, and `lastIdx p` finds the newest
entry with a property.  The facts below are what a proof needs to follow a
table through such edits.
-/
import Mathlib.Data.List.Basic
import Mathlib.Tactic.Common

namespace ListTable

variable {α : Type*}

/-- The index of the last entry that satisfies `p`. -/
def lastIdx (p : α → Bool) : List α → Option ℕ
  | [] => none
  | x :: xs =>
    match lastIdx p xs with
    | some n => some (n + 1)
    | none => if p x then some 0 else none

/-- Appending an entry: it becomes the last match, or changes nothing. -/
theorem lastIdx_concat (p : α → Bool) (l : List α) (x : α) :
    lastIdx p (l ++ [x]) = if p x then some l.length else lastIdx p l := by
  induction l with
  | nil => simp [lastIdx]
  | cons y l ih =>
    rw [List.cons_append, lastIdx, ih]
    by_cases hx : p x
    · simp [hx]
    · simp [hx, lastIdx]

/-- An edit that does not touch what `p` looks at does not move the last match. -/
theorem lastIdx_modify {p : α → Bool} {f : α → α} (hf : ∀ x, p (f x) = p x)
    (l : List α) (i : ℕ) : lastIdx p (l.modify i f) = lastIdx p l := by
  induction l generalizing i with
  | nil => cases i <;> rfl
  | cons y l ih =>
    cases i with
    | zero => simp [List.modify_zero_cons, lastIdx, hf]
    | succ i => simp [List.modify_succ_cons, lastIdx, ih]

/-- The same for an edit of every entry. -/
theorem lastIdx_map {p : α → Bool} {f : α → α} (hf : ∀ x, p (f x) = p x) (l : List α) :
    lastIdx p (l.map f) = lastIdx p l := by
  induction l with
  | nil => rfl
  | cons y l ih => simp [lastIdx, ih, hf]

/-- An entry of a grown table is an old entry or the new one. -/
theorem getElem?_concat_cases {l : List α} {x y : α} {i : ℕ} (h : (l ++ [x])[i]? = some y) :
    l[i]? = some y ∨ (i = l.length ∧ y = x) := by
  rcases Nat.lt_trichotomy i l.length with hi | hi | hi
  · rw [List.getElem?_append_left hi] at h
    exact .inl h
  · subst hi
    exact .inr ⟨rfl, by simpa using h.symm⟩
  · rw [List.getElem?_eq_none (by simp; omega)] at h
    exact absurd h (by simp)

/-- An old entry of a grown table is where it was. -/
theorem getElem?_concat_of_some {l : List α} {x y : α} {i : ℕ} (h : l[i]? = some y) :
    (l ++ [x])[i]? = some y := by
  obtain ⟨hi, -⟩ := List.getElem?_eq_some_iff.mp h
  rw [List.getElem?_append_left hi]
  exact h

/-! ## Updates of one entry -/

/-- `l'` is `l` with `y` at index `i`. -/
structure Updates (l l' : List α) (i : ℕ) (y : α) : Prop where
  self : l'[i]? = some y
  other : ∀ j, j ≠ i → l'[j]? = l[j]?

/-- Editing an entry updates it. -/
theorem updates_modify {f : α → α} {l : List α} {i : ℕ} {x : α} (h : l[i]? = some x) :
    Updates l (l.modify i f) i (f x) where
  self := by simp [h]
  other := fun j hj => by simp [Ne.symm hj]

/-- Two updates of one entry amount to the second. -/
theorem Updates.trans {l₁ l₂ l₃ : List α} {i : ℕ} {x y : α} (h₁ : Updates l₁ l₂ i x)
    (h₂ : Updates l₂ l₃ i y) : Updates l₁ l₃ i y where
  self := h₂.self
  other := fun j hj => (h₂.other j hj).trans (h₁.other j hj)

/-- Writing the value that is there changes nothing. -/
theorem modify_of_eq {l : List α} {i : ℕ} {x : α} (h : l[i]? = some x) :
    (l.modify i fun _ => x) = l := by
  apply List.ext_getElem?
  intro j
  rw [List.getElem?_modify]
  by_cases hj : i = j
  · subst hj
    simp [h]
  · simp [hj]

/-- An updated table is an edited one. -/
theorem Updates.eq_modify {l l' : List α} {i : ℕ} {x y : α} (h : Updates l l' i y)
    (hx : l[i]? = some x) : l' = l.modify i fun _ => y := by
  apply List.ext_getElem?
  intro j
  rw [List.getElem?_modify]
  by_cases hj : i = j
  · subst hj
    simp [h.self, hx]
  · rw [h.other j (Ne.symm hj)]
    simp [hj]

/-- An entry of an updated table is the new one or an old one elsewhere. -/
theorem Updates.cases {l l' : List α} {i j : ℕ} {x y : α} (h : Updates l l' i y)
    (hx : l'[j]? = some x) : (j = i ∧ x = y) ∨ (j ≠ i ∧ l[j]? = some x) := by
  by_cases hj : j = i
  · subst hj
    exact .inl ⟨rfl, Option.some.inj (hx.symm.trans h.self)⟩
  · exact .inr ⟨hj, (h.other j hj).symm.trans hx⟩

/-! ## Columns -/

section Column

variable {β : Type*} {h : α → β} {f : α → α} {l : List α} {i : ℕ} {x : α}

/-- Editing an entry edits its value in a column. -/
theorem map_modify (hx : l[i]? = some x) :
    (l.modify i f).map h = (l.map h).modify i fun _ => h (f x) := by
  apply List.ext_getElem?
  intro j
  rw [List.getElem?_map, List.getElem?_modify, List.getElem?_modify, List.getElem?_map]
  by_cases hj : i = j
  · subst hj
    simp [hx]
  · simp [hj]

/-- An edit that the column does not show. -/
theorem map_modify_of_eq (hx : l[i]? = some x) (hf : h (f x) = h x) :
    (l.modify i f).map h = l.map h := by
  apply List.ext_getElem?
  intro j
  rw [List.getElem?_map, List.getElem?_modify, List.getElem?_map]
  by_cases hj : i = j
  · subst hj
    simp [hx, hf]
  · simp [hj]

end Column

/-! ## Reading a table entry by entry -/

section MapM

variable {β : Type*} {f : α → Option β} {l : List α} {vs : List β}

/-- What `mapM` yields, entry by entry. -/
theorem of_mapM (h : l.mapM f = some vs) :
    vs.length = l.length ∧ ∀ n : ℕ, vs[n]? = l[n]?.bind f := by
  induction l generalizing vs with
  | nil =>
    rw [List.mapM_nil] at h
    cases h
    exact ⟨rfl, fun n => rfl⟩
  | cons a l ih =>
    rw [List.mapM_cons] at h
    obtain ⟨v, hv, h⟩ := Option.bind_eq_some_iff.mp h
    obtain ⟨vs', hvs', h⟩ := Option.bind_eq_some_iff.mp h
    cases h
    obtain ⟨hlen, hget⟩ := ih hvs'
    constructor
    · rw [List.length_cons, List.length_cons, hlen]
    · intro n
      cases n with
      | zero => exact hv.symm
      | succ n => exact hget n

theorem exists_of_mem_mapM (h : l.mapM f = some vs) {v : β} (hv : v ∈ vs) :
    ∃ a ∈ l, f a = some v := by
  obtain ⟨n, hn⟩ := List.mem_iff_getElem?.mp hv
  rw [(of_mapM h).2 n] at hn
  obtain ⟨a, ha, hfa⟩ := Option.bind_eq_some_iff.mp hn
  exact ⟨a, List.mem_of_getElem? ha, hfa⟩

end MapM

end ListTable
