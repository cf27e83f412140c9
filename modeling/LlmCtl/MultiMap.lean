/-
# Multimaps in insertion order

A multimap keeps for each key the list of its values.  `insert` puts one value in the place of
whatever the key had, and `append` adds a value to it; a new key comes last.  `iter` reads the map
out, the values of each key together.  That no key has two entries, and that no entry is empty,
are fields of the map.

Appending what was read out of one map to an empty one, key by key, rebuilds it, whatever is
left out on the way; inserting it keeps only the last value of each key.
-/
import Mathlib.Data.List.Nodup
import Mathlib.Tactic.TypeStar

/-! ## Entries -/

section Entries

variable {K V : Type*} [DecidableEq K]

/-- The values of a key. -/
def valuesOf : List (K × List V) → K → List V
  | [], _ => []
  | e :: es, k => if e.1 = k then e.2 else valuesOf es k

/-- Edit the values of a key; a new key comes last. -/
def upsert (f : List V → List V) (k : K) : List (K × List V) → List (K × List V)
  | [] => [(k, f [])]
  | e :: es => if e.1 = k then (e.1, f e.2) :: es else e :: upsert f k es

theorem valuesOf_upsert (f : List V → List V) (k m : K) (es : List (K × List V)) :
    valuesOf (upsert f k es) m = if m = k then f (valuesOf es k) else valuesOf es m := by
  induction es with
  | nil =>
    by_cases hm : m = k
    · simp [upsert, valuesOf, hm]
    · simp [upsert, valuesOf, hm, Ne.symm hm]
  | cons e es ih =>
    by_cases he : e.1 = k
    · subst he
      by_cases hm : m = e.1
      · simp [upsert, valuesOf, hm]
      · simp [upsert, valuesOf, hm, Ne.symm hm]
    · by_cases hm : m = k
      · subst hm
        rw [if_pos rfl] at ih ⊢
        simp [upsert, valuesOf, he, ih]
      · rw [if_neg hm] at ih ⊢
        simp [upsert, valuesOf, he, ih]

theorem keys_upsert (f : List V → List V) (k : K) (es : List (K × List V)) :
    (upsert f k es).map Prod.fst =
      if k ∈ es.map Prod.fst then es.map Prod.fst else es.map Prod.fst ++ [k] := by
  induction es with
  | nil => simp [upsert]
  | cons e es ih =>
    by_cases he : e.1 = k
    · simp [upsert, he]
    · have hne : ¬ k = e.1 := fun h => he h.symm
      simp only [upsert, he, if_false, List.map_cons, ih, List.mem_cons, hne, false_or]
      split <;> rfl

theorem nodup_upsert (f : List V → List V) (k : K) {es : List (K × List V)}
    (h : (es.map Prod.fst).Nodup) : ((upsert f k es).map Prod.fst).Nodup := by
  rw [keys_upsert]
  split
  · exact h
  · next hk =>
    refine List.nodup_append.mpr ⟨h, List.nodup_singleton k, ?_⟩
    rintro a ha b hb rfl
    exact hk (List.mem_singleton.mp hb ▸ ha)

theorem nonempty_upsert {f : List V → List V} (hf : ∀ vs, f vs ≠ []) (k : K)
    {es : List (K × List V)} (h : ∀ e ∈ es, e.2 ≠ []) : ∀ e ∈ upsert f k es, e.2 ≠ [] := by
  induction es with
  | nil =>
    intro e he
    obtain rfl := List.mem_singleton.mp he
    exact hf []
  | cons x es ih =>
    have hrest : ∀ e ∈ es, e.2 ≠ [] := fun e he => h e (List.mem_cons_of_mem x he)
    unfold upsert
    split
    · intro e he
      rcases List.mem_cons.mp he with rfl | he
      · exact hf _
      · exact hrest e he
    · intro e he
      rcases List.mem_cons.mp he with rfl | he
      · exact h _ List.mem_cons_self
      · exact ih hrest e he

/-- A key that is not there gets an entry at the end. -/
theorem upsert_of_notMem (f : List V → List V) {k : K} {es : List (K × List V)}
    (hk : k ∉ es.map Prod.fst) : upsert f k es = es ++ [(k, f [])] := by
  induction es with
  | nil => rfl
  | cons e es ih =>
    simp only [List.map_cons, List.mem_cons, not_or] at hk
    rw [upsert, if_neg (Ne.symm hk.1), ih hk.2]
    rfl

/-- The last entry is edited in its place. -/
theorem upsert_last (f : List V → List V) {k : K} {es : List (K × List V)} (vs : List V)
    (hk : k ∉ es.map Prod.fst) : upsert f k (es ++ [(k, vs)]) = es ++ [(k, f vs)] := by
  induction es with
  | nil => simp [upsert]
  | cons e es ih =>
    simp only [List.map_cons, List.mem_cons, not_or] at hk
    rw [List.cons_append, upsert, if_neg (Ne.symm hk.1), ih hk.2]
    rfl

theorem valuesOf_of_notMem {k : K} {es : List (K × List V)} (hk : k ∉ es.map Prod.fst) :
    valuesOf es k = [] := by
  induction es with
  | nil => rfl
  | cons e es ih =>
    simp only [List.map_cons, List.mem_cons, not_or] at hk
    rw [valuesOf, if_neg (Ne.symm hk.1), ih hk.2]

/-- All pairs, the values of each key together. -/
def pairsOf (es : List (K × List V)) : List (K × V) := es.flatMap fun e => e.2.map (e.1, ·)

/-- The pairs of one key are its values. -/
theorem pairsOf_filter {es : List (K × List V)} (h : (es.map Prod.fst).Nodup) (k : K) :
    ((pairsOf es).filter fun p => decide (p.1 = k)) = (valuesOf es k).map (k, ·) := by
  induction es with
  | nil => rfl
  | cons e es ih =>
    rw [List.map_cons, List.nodup_cons] at h
    have hrest := ih h.2
    rw [pairsOf, List.flatMap_cons, List.filter_append]
    show _ ++ ((pairsOf es).filter fun p => decide (p.1 = k)) = _
    rw [hrest]
    by_cases he : e.1 = k
    · subst he
      rw [valuesOf_of_notMem h.1, valuesOf, if_pos rfl]
      simp
    · have hnone : ((e.2.map (e.1, ·)).filter fun p => decide (p.1 = k)) = [] := by
        simp [List.filter_map, Function.comp_def, he]
      rw [hnone, List.nil_append, valuesOf, if_neg he]

omit [DecidableEq K] in
/-- Leaving out some keys. -/
theorem pairsOf_filter_key (keep : K → Bool) (es : List (K × List V)) :
    ((pairsOf es).filter fun p => keep p.1) = pairsOf (es.filter fun e => keep e.1) := by
  induction es with
  | nil => rfl
  | cons e es ih =>
    rw [pairsOf, List.flatMap_cons, List.filter_append]
    show _ ++ ((pairsOf es).filter fun p => keep p.1) = _
    rw [ih]
    cases hk : keep e.1 with
    | true => simp [hk, List.filter_map, Function.comp_def, pairsOf]
    | false => simp [hk, List.filter_map, Function.comp_def, pairsOf]

end Entries

/-! ## The map -/

/-- A multimap. -/
@[ext]
structure MultiMap (K V : Type*) where
  entries : List (K × List V)
  keys_nodup : (entries.map Prod.fst).Nodup
  nonempty : ∀ e ∈ entries, e.2 ≠ []

namespace MultiMap

variable {K V : Type*} [DecidableEq K]

def empty : MultiMap K V := ⟨[], List.nodup_nil, by simp⟩

/-- All values of a key, in order. -/
def getAll (h : MultiMap K V) (k : K) : List V := valuesOf h.entries k

/-- The first value of a key. -/
def get (h : MultiMap K V) (k : K) : Option V := (h.getAll k).head?

/-- The pairs of the map. -/
def iter (h : MultiMap K V) : List (K × V) := pairsOf h.entries

def insert (h : MultiMap K V) (k : K) (v : V) : MultiMap K V where
  entries := upsert (fun _ => [v]) k h.entries
  keys_nodup := nodup_upsert _ k h.keys_nodup
  nonempty := nonempty_upsert (by simp) k h.nonempty

def append (h : MultiMap K V) (k : K) (v : V) : MultiMap K V where
  entries := upsert (fun vs => vs ++ [v]) k h.entries
  keys_nodup := nodup_upsert _ k h.keys_nodup
  nonempty := nonempty_upsert (by simp) k h.nonempty

/-- Insert a value unless the key has one. -/
def insertVacant (h : MultiMap K V) (k : K) (v : V) : MultiMap K V :=
  if h.getAll k = [] then h.insert k v else h

/-- The map of the pairs that are appended one after the other. -/
def ofPairs (ps : List (K × V)) : MultiMap K V := ps.foldl (fun h p => h.append p.1 p.2) empty

@[simp] theorem getAll_empty (k : K) : (empty : MultiMap K V).getAll k = [] := rfl

theorem getAll_insert (h : MultiMap K V) (k m : K) (v : V) :
    (h.insert k v).getAll m = if m = k then [v] else h.getAll m := valuesOf_upsert _ k m h.entries

/-- The pairs of one key are its values. -/
theorem iter_filter (h : MultiMap K V) (k : K) :
    (h.iter.filter fun p => decide (p.1 = k)) = (h.getAll k).map (k, ·) :=
  pairsOf_filter h.keys_nodup k

/-! ### Inserting pairs one after the other -/

/-- Of the values that are inserted for a key, the last one stays. -/
theorem getAll_foldl_insert (ps : List (K × V)) (h : MultiMap K V) (k : K) :
    (ps.foldl (fun h p => h.insert p.1 p.2) h).getAll k =
      match (ps.filter fun p => decide (p.1 = k)).getLast? with
      | some p => [p.2]
      | none => h.getAll k := by
  induction ps generalizing h with
  | nil => rfl
  | cons p ps ih =>
    rw [List.foldl_cons, ih, List.filter_cons]
    by_cases hp : p.1 = k
    · rw [decide_eq_true hp, if_pos rfl]
      cases hlast : (ps.filter fun p => decide (p.1 = k)).getLast? with
      | none =>
        rw [List.getLast?_eq_none_iff.mp hlast]
        show (h.insert p.1 p.2).getAll k = [p.2]
        rw [getAll_insert, if_pos hp.symm]
      | some q =>
        rw [List.getLast?_cons, hlast]
        rfl
    · rw [decide_eq_false hp, if_neg Bool.false_ne_true]
      cases (ps.filter fun p => decide (p.1 = k)).getLast? with
      | none =>
        show (h.insert p.1 p.2).getAll k = h.getAll k
        rw [getAll_insert, if_neg (Ne.symm hp)]
      | some q => rfl

/-- Inserting what is vacant: a key keeps its values, or gets the first one offered. -/
theorem getAll_foldl_insertVacant (ps : List (K × V)) (h : MultiMap K V) (k : K) :
    (ps.foldl (fun h p => h.insertVacant p.1 p.2) h).getAll k =
      if h.getAll k = [] then ((ps.filter fun p => decide (p.1 = k)).head?.map Prod.snd).toList
      else h.getAll k := by
  induction ps generalizing h with
  | nil =>
    show h.getAll k = _
    split
    · next hnil => rw [hnil]; rfl
    · rfl
  | cons p ps ih =>
    rw [List.foldl_cons, ih, List.filter_cons]
    by_cases hp : p.1 = k
    · subst hp
      by_cases hnil : h.getAll p.1 = []
      · have hset : (h.insertVacant p.1 p.2).getAll p.1 = [p.2] := by
          rw [insertVacant, if_pos hnil, getAll_insert, if_pos rfl]
        rw [hset, if_neg (by simp), if_pos hnil, decide_eq_true rfl, if_pos rfl]
        rfl
      · have hset : h.insertVacant p.1 p.2 = h := by rw [insertVacant, if_neg hnil]
        rw [hset, if_neg hnil, if_neg hnil]
    · have hother : (h.insertVacant p.1 p.2).getAll k = h.getAll k := by
        unfold insertVacant
        split
        · rw [getAll_insert, if_neg (Ne.symm hp)]
        · rfl
      rw [hother, decide_eq_false hp, if_neg Bool.false_ne_true]

/-! ### Rebuilding a map -/

/-- Appending the values of a new key one after the other gives it an entry of its own. -/
theorem foldl_append_entry (vs : List V) (k : K) (h : MultiMap K V) (es : List (K × List V))
    (us : List V) (hk : k ∉ es.map Prod.fst) (hh : h.entries = es ++ [(k, us)]) :
    ((vs.map (k, ·)).foldl (fun h p => h.append p.1 p.2) h).entries = es ++ [(k, us ++ vs)] := by
  induction vs generalizing h us with
  | nil => simpa using hh
  | cons v vs ih =>
    have happ : (h.append k v).entries = es ++ [(k, us ++ [v])] := by
      show upsert _ k h.entries = _
      rw [hh, upsert_last _ us hk]
    rw [List.map_cons, List.foldl_cons, ih _ _ happ, List.append_assoc]
    rfl

theorem foldl_append_pairsOf (fs : List (K × List V)) (h : MultiMap K V)
    (hnodup : ((h.entries ++ fs).map Prod.fst).Nodup) (hne : ∀ e ∈ fs, e.2 ≠ []) :
    ((pairsOf fs).foldl (fun h p => h.append p.1 p.2) h).entries = h.entries ++ fs := by
  induction fs generalizing h with
  | nil => simp [pairsOf]
  | cons f fs ih =>
    obtain ⟨k, vs⟩ := f
    have hk : k ∉ h.entries.map Prod.fst := by
      rw [List.map_append, List.map_cons] at hnodup
      intro hmem
      exact (List.nodup_append.mp hnodup).2.2 k hmem k List.mem_cons_self rfl
    cases vs with
    | nil => exact absurd rfl (hne (k, []) List.mem_cons_self)
    | cons v vs =>
      have hfirst : (h.append k v).entries = h.entries ++ [(k, [v])] := upsert_of_notMem _ hk
      rw [pairsOf, List.flatMap_cons, List.map_cons, List.cons_append, List.foldl_cons,
        List.foldl_append]
      show ((pairsOf fs).foldl (fun (h : MultiMap K V) p => h.append p.1 p.2) _).entries = _
      have hentry := foldl_append_entry vs k (h.append k v) h.entries [v] hk hfirst
      rw [ih]
      · rw [hentry, List.append_assoc]
        rfl
      · rw [hentry, List.append_assoc]
        exact hnodup
      · exact fun e he => hne e (List.mem_cons_of_mem _ he)

/-- **Copying a map, some keys left out**: the copy reads as what was copied. -/
theorem iter_ofPairs_filter (h : MultiMap K V) (keep : K → Bool) :
    (ofPairs (h.iter.filter fun p => keep p.1)).iter = h.iter.filter fun p => keep p.1 := by
  have hkeys : ((h.entries.filter fun e => keep e.1).map Prod.fst).Nodup :=
    h.keys_nodup.sublist (List.filter_sublist.map _)
  have hne : ∀ e ∈ h.entries.filter fun e => keep e.1, e.2 ≠ [] :=
    fun e he => h.nonempty e (List.mem_of_mem_filter he)
  have hentries := foldl_append_pairsOf _ empty hkeys hne
  rw [iter, iter, pairsOf_filter_key, ofPairs, hentries]
  rfl

end MultiMap
