/-
# TOML documents

The tables of a TOML document as they are built statement by statement: a table header opens
a table, `[[key]]` appends a table to an array of tables, and `key = value` adds to the table
that is open.  A key is written once; a table that a header or a dotted key has defined is not
defined again, and an inline table or array is complete as it stands.

Texts are lists of characters.
-/
import Mathlib.Data.Int.Notation
import Mathlib.Data.List.Basic

namespace Toml

/-! ## Values -/

/-- How a table came about: as part of a longer header, by a header of its own, by a dotted key,
or inline. -/
inductive TableKind where
  | implicit
  | header
  | dotted
  | inline
  deriving DecidableEq, Repr

/-- A value.  Floats and times are kept as they are written.  `tables` is an array of tables. -/
inductive Value where
  | str (s : List Char)
  | int (n : ℤ)
  | bool (b : Bool)
  | float (text : List Char)
  | time (text : List Char)
  | array (vs : List Value)
  | table (kind : TableKind) (entries : List (List Char × Value))
  | tables (ts : List Value)

/-- The entries of a table. -/
abbrev Entries := List (List Char × Value)

/-- The value of a key. -/
def find? (es : Entries) (k : List Char) : Option Value :=
  match es with
  | [] => none
  | (k', v) :: es => if k' = k then some v else find? es k

/-- The table with another value for a key that it has. -/
def replace (es : Entries) (k : List Char) (v : Value) : Entries :=
  match es with
  | [] => []
  | (k', v') :: es => if k' = k then (k', v) :: es else (k', v') :: replace es k v

@[simp] theorem find?_append_single (es : Entries) (k k' : List Char) (v : Value) :
    find? (es ++ [(k, v)]) k' = (find? es k').or (if k = k' then some v else none) := by
  induction es with
  | nil => simp [find?]
  | cons e es ih =>
    simp only [List.cons_append, find?, ih]
    split <;> simp

theorem find?_replace_self {es : Entries} {k : List Char} {v v' : Value}
    (h : find? es k = some v') : find? (replace es k v) k = some v := by
  induction es with
  | nil => exact absurd h (by simp [find?])
  | cons e es ih =>
    by_cases hk : e.1 = k
    · simp [replace, find?, hk]
    · simp only [find?, hk, if_false] at h
      simp [replace, find?, hk, ih h]

theorem find?_replace_other {es : Entries} {k k' : List Char} {v : Value} (hne : k ≠ k') :
    find? (replace es k v) k' = find? es k' := by
  induction es with
  | nil => rfl
  | cons e es ih =>
    by_cases hk : e.1 = k
    · simp [replace, find?, hk, hne]
    · simp [replace, find?, hk, ih]

/-! ## Statements -/

/-- Go down to the table with a path, through the last tables of arrays, and edit it.  Tables
that are missing on the way are created. -/
def enter (edit : Entries → Option Entries) : List (List Char) → Entries → Option Entries
  | [], es => edit es
  | k :: ks, es =>
    match find? es k with
    | none => (enter edit ks []).map fun sub => es ++ [(k, .table .implicit sub)]
    | some (.table kind sub) =>
      if kind = .inline then none
      else (enter edit ks sub).map fun sub' => replace es k (.table kind sub')
    | some (.tables ts) =>
      match ts.getLast? with
      | some (.table kind sub) =>
        (enter edit ks sub).map fun sub' =>
          replace es k (.tables (ts.dropLast ++ [.table kind sub']))
      | _ => none
    | some _ => none

/-- The last step of `[key]`. -/
def defineTable (k : List Char) (es : Entries) : Option Entries :=
  match find? es k with
  | none => some (es ++ [(k, .table .header [])])
  | some (.table .implicit sub) => some (replace es k (.table .header sub))
  | some _ => none

/-- The last step of `[[key]]`. -/
def defineElement (k : List Char) (es : Entries) : Option Entries :=
  match find? es k with
  | none => some (es ++ [(k, .tables [.table .header []])])
  | some (.tables ts) => some (replace es k (.tables (ts ++ [.table .header []])))
  | some _ => none

/-- `key = value`, with a dotted key: the tables on the way are created, or have been created by
other dotted keys. -/
def insert (v : Value) : List (List Char) → Entries → Option Entries
  | [], _ => none
  | [k], es =>
    match find? es k with
    | none => some (es ++ [(k, v)])
    | some _ => none
  | k :: ks, es =>
    match find? es k with
    | none => (insert v ks []).map fun sub => es ++ [(k, .table .dotted sub)]
    | some (.table .dotted sub) =>
      (insert v ks sub).map fun sub' => replace es k (.table .dotted sub')
    | some _ => none

/-- A document: its root table, and the path of the table that is open. -/
structure Doc where
  root : Entries := []
  path : List (List Char) := []

namespace Doc

/-- `[key]`. -/
def header (d : Doc) (key : List (List Char)) : Option Doc :=
  match key.getLast? with
  | some k => (enter (defineTable k) key.dropLast d.root).map fun root => ⟨root, key⟩
  | none => none

/-- `[[key]]`. -/
def element (d : Doc) (key : List (List Char)) : Option Doc :=
  match key.getLast? with
  | some k => (enter (defineElement k) key.dropLast d.root).map fun root => ⟨root, key⟩
  | none => none

/-- `key = value`. -/
def keyval (d : Doc) (key : List (List Char)) (v : Value) : Option Doc :=
  (enter (insert v key) d.path d.root).map fun root => { d with root := root }

/-- The table that is open is the last one, with the entries `es`, of the array of tables `k`
after the tables `ts`; the other keys are as in `root`. -/
structure Opened (k : List Char) (root : Entries) (ts : List Value) (es : Entries) (d : Doc) :
    Prop where
  path : d.path = [k]
  last : find? d.root k = some (.tables (ts ++ [.table .header es]))
  others : ∀ k', k' ≠ k → find? d.root k' = find? root k'

section Opened

variable {d : Doc} {k : List Char} {ts : List Value}

/-- `[[k]]` for a key that is new. -/
theorem element_of_none (h : find? d.root k = none) :
    ∃ d', d.element [k] = some d' ∧ Opened k d.root [] [] d' := by
  refine ⟨⟨d.root ++ [(k, .tables [.table .header []])], [k]⟩, ?_, rfl, ?_, ?_⟩
  · show (defineElement k d.root).map _ = _
    rw [defineElement, h]
    rfl
  · show find? (d.root ++ _) k = _
    rw [find?_append_single, h, if_pos rfl]
    rfl
  · intro k' hk
    show find? (d.root ++ _) k' = _
    rw [find?_append_single, if_neg (Ne.symm hk), Option.or_none]

/-- `[[k]]` for an array of tables. -/
theorem element_of_tables (h : find? d.root k = some (.tables ts)) :
    ∃ d', d.element [k] = some d' ∧ Opened k d.root ts [] d' := by
  refine ⟨⟨replace d.root k (.tables (ts ++ [.table .header []])), [k]⟩, ?_, rfl, ?_, ?_⟩
  · show (defineElement k d.root).map _ = _
    rw [defineElement, h]
    rfl
  · exact find?_replace_self h
  · intro k' hk
    exact find?_replace_other (Ne.symm hk)

/-- `[[k]]` for any other value. -/
theorem element_of_other {v : Value} (h : find? d.root k = some v)
    (hv : ∀ ts, v ≠ .tables ts) : d.element [k] = none := by
  show (defineElement k d.root).map _ = none
  rw [defineElement, h]
  cases v with
  | tables ts => exact absurd rfl (hv ts)
  | _ => rfl

/-- `key = v` in the table that is open. -/
theorem Opened.keyval {root es : Entries} (h : Opened k root ts es d) {key : List Char}
    (hnew : find? es key = none) (v : Value) :
    ∃ d', d.keyval [key] v = some d' ∧ Opened k root ts (es ++ [(key, v)]) d' := by
  have hins : insert v [key] es = some (es ++ [(key, v)]) := by
    rw [insert, hnew]
  refine ⟨⟨replace d.root k (.tables (ts ++ [.table .header (es ++ [(key, v)])])), d.path⟩,
    ?_, h.path, find?_replace_self h.last, ?_⟩
  · rw [Doc.keyval, h.path, enter, h.last]
    simp only [List.getLast?_concat, List.dropLast_concat, enter, hins, Option.map_some]
  · intro k' hk
    rw [← h.others k' hk]
    exact find?_replace_other (Ne.symm hk)

end Opened

end Doc

end Toml
