/-
# Shapes of JSON values

A shape says of what kind a value is and, of an object, which fields it has and of what kind they
are.  It says nothing about texts, numbers and the lengths of lists.
-/
import LlmCtl.JsonValue
import Mathlib.Data.List.Basic

/-- What a value looks like. -/
inductive JsonShape where
  | any
  | text
  | number
  | flag
  | orNull (s : JsonShape)
  | list (s : JsonShape)
  | object
  /-- An object with a field more. -/
  | field (key : String) (value rest : JsonShape)

/-- The length of a list in an object. -/
def Json.listLength (v : Json) (key : String) : ℕ :=
  match v.get? key with
  | some (.arr items) => items.length
  | _ => 0

namespace JsonShape

/-- An object with some fields. -/
def record (fields : List (String × JsonShape)) : JsonShape :=
  fields.foldr (fun f rest => .field f.1 f.2 rest) .object

/-- **The value has the shape.** -/
def Fits : JsonShape → Json → Prop
  | .any, _ => True
  | .text, v => ∃ t, v = .str t
  | .number, v => (∃ n, v = .int n) ∨ ∃ q, v = .float q
  | .flag, v => ∃ b, v = .bool b
  | .orNull s, v => v = .null ∨ s.Fits v
  | .list s, v => ∃ items, v = .arr items ∧ ∀ i ∈ items, s.Fits i
  | .object, v => ∃ fields, v = .obj fields
  | .field key s rest, v => (∃ x, v.get? key = some x ∧ s.Fits x) ∧ rest.Fits v

theorem fits_record {fields : List (String × JsonShape)} {v : Json} :
    (record fields).Fits v ↔
      (∃ fs, v = .obj fs) ∧ ∀ f ∈ fields, ∃ x, v.get? f.1 = some x ∧ f.2.Fits x := by
  induction fields with
  | nil => exact ⟨fun h => ⟨h, fun f hf => absurd hf List.not_mem_nil⟩, And.left⟩
  | cons f fields ih =>
    rw [List.forall_mem_cons]
    constructor
    · rintro ⟨hf, hrest⟩
      obtain ⟨hobj, hfields⟩ := ih.mp hrest
      exact ⟨hobj, hf, hfields⟩
    · rintro ⟨hobj, hf, hfields⟩
      exact ⟨hf, ih.mpr ⟨hobj, hfields⟩⟩

/-- Whether a value is `null`. -/
def decidableNull (v : Json) : Decidable (v = .null) :=
  match v with
  | .null => isTrue rfl
  | .bool _ | .int _ | .float _ | .str _ | .arr _ | .obj _ => isFalse nofun

/-- Whether there is a value with a property. -/
def decidableSome {α : Type} {P : α → Prop} (h : ∀ a, Decidable (P a)) (o : Option α) :
    Decidable (∃ a, o = some a ∧ P a) :=
  match o with
  | none => isFalse nofun
  | some a => decidable_of_iff (P a) ⟨fun ha => ⟨a, rfl, ha⟩, fun ⟨_, hb, ha⟩ =>
      Option.some.inj hb ▸ ha⟩

/-- Whether the value has the shape. -/
def decidableFits : (s : JsonShape) → (v : Json) → Decidable (s.Fits v)
  | .any, _ => isTrue trivial
  | .text, v =>
    match v with
    | .str t => isTrue ⟨t, rfl⟩
    | .null | .bool _ | .int _ | .float _ | .arr _ | .obj _ => isFalse nofun
  | .number, v =>
    match v with
    | .int n => isTrue (.inl ⟨n, rfl⟩)
    | .float q => isTrue (.inr ⟨q, rfl⟩)
    | .null | .bool _ | .str _ | .arr _ | .obj _ => isFalse nofun
  | .flag, v =>
    match v with
    | .bool b => isTrue ⟨b, rfl⟩
    | .null | .int _ | .float _ | .str _ | .arr _ | .obj _ => isFalse nofun
  | .orNull s, v => @instDecidableOr _ _ (decidableNull v) (s.decidableFits v)
  | .list s, v =>
    match v with
    | .arr items =>
      have := s.decidableFits
      decidable_of_iff (∀ i ∈ items, s.Fits i)
        ⟨fun h => ⟨items, rfl, h⟩, fun ⟨_, heq, h⟩ => Json.arr.inj heq ▸ h⟩
    | .null | .bool _ | .int _ | .float _ | .str _ | .obj _ => isFalse nofun
  | .object, v =>
    match v with
    | .obj fields => isTrue ⟨fields, rfl⟩
    | .null | .bool _ | .int _ | .float _ | .str _ | .arr _ => isFalse nofun
  | .field key s rest, v =>
    @instDecidableAnd _ _ (decidableSome s.decidableFits (v.get? key)) (rest.decidableFits v)

instance (s : JsonShape) (v : Json) : Decidable (s.Fits v) := s.decidableFits v

example : ¬ (record [("id", .text), ("size", .number)]).Fits (.obj [("id", .str "a")]) := by
  decide

/-- A field of a record. -/
theorem Fits.get {fields : List (String × JsonShape)} {v : Json} (h : (record fields).Fits v)
    {key : String} {s : JsonShape} (hmem : (key, s) ∈ fields) :
    ∃ x, v.get? key = some x ∧ s.Fits x := (fits_record.mp h).2 (key, s) hmem

/-! ## What the values of a program look like -/

theorem fits_orNull {α : Type*} {s : JsonShape} {f : α → Json} (h : ∀ a, s.Fits (f a))
    (x : Option α) : (JsonShape.orNull s).Fits ((x.map f).getD .null) := by
  cases x with
  | none => exact .inl rfl
  | some a => exact .inr (h a)

/-- An object that has the fields of a record, in their order. -/
theorem fits_obj {fields : List (String × Json)} {shapes : List (String × JsonShape)}
    (hkeys : (shapes.map Prod.fst).Nodup)
    (h : List.Forall₂ (fun f s => f.1 = s.1 ∧ s.2.Fits f.2) fields shapes) :
    (record shapes).Fits (.obj fields) := by
  refine fits_record.mpr ⟨⟨fields, rfl⟩, ?_⟩
  show ∀ s ∈ shapes, ∃ x, (fields.find? fun f => f.1 == s.1).map Prod.snd = some x ∧ s.2.Fits x
  induction h with
  | nil => exact fun s hs => absurd hs List.not_mem_nil
  | @cons f s fields shapes hfs _ ih =>
    rw [List.map_cons, List.nodup_cons] at hkeys
    obtain ⟨hkey, hfits⟩ := hfs
    intro s' hs'
    rcases List.mem_cons.mp hs' with rfl | hs'
    · have hpos : (f.1 == s'.1) = true := beq_iff_eq.mpr hkey
      exact ⟨f.2, by rw [List.find?_cons, hpos]; rfl, hfits⟩
    · have hne : (f.1 == s'.1) = false := by
        refine beq_eq_false_iff_ne.mpr fun heq => hkeys.1 ?_
        rw [← hkey, heq]
        exact List.mem_map_of_mem hs'
      obtain ⟨x, hx, hxfits⟩ := ih hkeys.2 s' hs'
      exact ⟨x, by rw [List.find?_cons, hne]; exact hx, hxfits⟩

theorem fits_list {α : Type*} {s : JsonShape} {f : α → Json} (h : ∀ a, s.Fits (f a))
    (l : List α) : (JsonShape.list s).Fits (.arr (l.map f)) := by
  refine ⟨l.map f, rfl, fun i hi => ?_⟩
  obtain ⟨a, -, rfl⟩ := List.mem_map.mp hi
  exact h a

end JsonShape
