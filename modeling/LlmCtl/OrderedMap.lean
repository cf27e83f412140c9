/-
# Ordered maps

A map is the list of its entries in the order of their keys, each key at most once.  Inserting an
entry puts it in its place, and replaces the one that is there.

After a sequence of insertions, a key has the value that was inserted last.
-/
import Mathlib.Order.Lattice
import Mathlib.Data.List.Basic
import Mathlib.Data.List.Pairwise
import Mathlib.Tactic.Common

/-- A map, as the list of its entries. -/
structure OrderedMap (K V : Type*) [LinearOrder K] where
  entries : List (K × V)
  sorted : entries.Pairwise fun a b => a.1 < b.1

namespace OrderedMap

variable {K V : Type*} [LinearOrder K]

/-! ## The entries -/

/-- The value of the first entry with a key. -/
def valueOf : List (K × V) → K → Option V
  | [], _ => none
  | e :: es, k => if e.1 = k then some e.2 else valueOf es k

/-- An entry in its place. -/
def place (k : K) (v : V) : List (K × V) → List (K × V)
  | [] => [(k, v)]
  | e :: es =>
    if k < e.1 then (k, v) :: e :: es
    else if k = e.1 then (k, v) :: es
    else e :: place k v es

theorem mem_place {k : K} {v : V} {es : List (K × V)} {e : K × V} (h : e ∈ place k v es) :
    e = (k, v) ∨ e ∈ es := by
  induction es with
  | nil => exact .inl (List.mem_singleton.mp h)
  | cons d es ih =>
    rw [place] at h
    split at h
    · exact List.mem_cons.mp h
    · split at h
      · exact (List.mem_cons.mp h).imp_right (List.mem_cons_of_mem d)
      · rcases List.mem_cons.mp h with rfl | h
        · exact .inr List.mem_cons_self
        · exact (ih h).imp_right (List.mem_cons_of_mem d)

theorem pairwise_place (k : K) (v : V) {es : List (K × V)}
    (h : es.Pairwise fun a b => a.1 < b.1) : (place k v es).Pairwise fun a b => a.1 < b.1 := by
  induction es with
  | nil => exact List.pairwise_singleton _ _
  | cons e es ih =>
    obtain ⟨hhead, htail⟩ := List.pairwise_cons.mp h
    rw [place]
    split
    · next hlt =>
      refine List.pairwise_cons.mpr ⟨fun d hd => ?_, h⟩
      rcases List.mem_cons.mp hd with rfl | hd
      · exact hlt
      · exact hlt.trans (hhead d hd)
    · next hge =>
      split
      · next heq => exact List.pairwise_cons.mpr ⟨fun d hd => heq ▸ hhead d hd, htail⟩
      · next hne =>
        refine List.pairwise_cons.mpr ⟨fun d hd => ?_, ih htail⟩
        rcases mem_place hd with rfl | hd
        · exact lt_of_le_of_ne (not_lt.mp hge) (Ne.symm hne)
        · exact hhead d hd

theorem valueOf_place (k : K) (v : V) (es : List (K × V)) (m : K) :
    valueOf (place k v es) m = if k = m then some v else valueOf es m := by
  induction es with
  | nil => rfl
  | cons e es ih =>
    rw [place]
    split
    · rfl
    · split
      · next heq =>
        -- The new entry hides the old one.
        rw [valueOf, valueOf, ← heq]
        by_cases hm : k = m
        · rw [if_pos hm, if_pos hm]
        · rw [if_neg hm, if_neg hm, if_neg hm]
      · next hne =>
        rw [valueOf, valueOf, ih]
        by_cases hm : e.1 = m
        · rw [if_pos hm, if_pos hm, if_neg (by rw [← hm]; exact hne)]
        · rw [if_neg hm, if_neg hm]

/-! ## The map -/

/-- The map without entries. -/
def empty : OrderedMap K V := ⟨[], .nil⟩

/-- `insert`. -/
def insert (m : OrderedMap K V) (k : K) (v : V) : OrderedMap K V where
  entries := place k v m.entries
  sorted := pairwise_place k v m.sorted

/-- `get`. -/
def get? (m : OrderedMap K V) (k : K) : Option V := valueOf m.entries k

/-- **A key has one entry.** -/
theorem nodup_keys (m : OrderedMap K V) : (m.entries.map Prod.fst).Nodup := by
  rw [List.Nodup, List.pairwise_map]
  exact m.sorted.imp fun hlt => hlt.ne

theorem get?_insert (m : OrderedMap K V) (k : K) (v : V) (k' : K) :
    (m.insert k v).get? k' = if k = k' then some v else m.get? k' := valueOf_place k v m.entries k'

/-! ## Many insertions -/

/-- All insertions, one after another. -/
def insertAll (m : OrderedMap K V) (es : List (K × V)) : OrderedMap K V :=
  es.foldl (fun m e => m.insert e.1 e.2) m

/-- The last value that is inserted for a key. -/
def lastOf : List (K × V) → K → Option V
  | [], _ => none
  | e :: es, k => (lastOf es k).or (if e.1 = k then some e.2 else none)

/-- **The last insertion counts.** -/
theorem get?_insertAll (m : OrderedMap K V) (es : List (K × V)) (k : K) :
    (m.insertAll es).get? k = (lastOf es k).or (m.get? k) := by
  induction es generalizing m with
  | nil => rfl
  | cons e es ih =>
    have hstep : (m.insertAll (e :: es)) = (m.insert e.1 e.2).insertAll es := rfl
    rw [hstep, ih, get?_insert, lastOf, Option.or_assoc]
    congr 1
    split <;> rfl

theorem get?_insertAll_empty (es : List (K × V)) (k : K) :
    ((empty : OrderedMap K V).insertAll es).get? k = lastOf es k := by
  rw [get?_insertAll]
  exact Option.or_none

/-- A function on the values. -/
theorem lastOf_map {W : Type*} (f : V → W) (es : List (K × V)) (k : K) :
    lastOf (es.map fun e => (e.1, f e.2)) k = (lastOf es k).map f := by
  induction es with
  | nil => rfl
  | cons e es ih =>
    rw [List.map_cons, lastOf, lastOf, ih]
    by_cases he : e.1 = k
    · rw [if_pos he, if_pos he]
      cases lastOf es k <;> rfl
    · rw [if_neg he, if_neg he]
      cases lastOf es k <;> rfl

end OrderedMap
