/-
# Values of a known shape in a script

What a script meets in a parsed JSON text whose shape is known: fields that are there, lists that
it can go through, and values that it can make texts of.
-/
import LlmCtl.JsValue
import LlmCtl.JsonShape

namespace Js

/-! ## Values that can be shown -/

/-- A value that is no array and no object. -/
def Scalar : Js → Prop
  | .undefined => True
  | .json (.arr _) => False
  | .json (.obj _) => False
  | .json _ => True

theorem scalar_text {v : Json} (h : JsonShape.text.Fits v) : Scalar (.json v) := by
  obtain ⟨t, rfl⟩ := h
  trivial

theorem scalar_number {v : Json} (h : JsonShape.number.Fits v) : Scalar (.json v) := by
  obtain ⟨n, rfl⟩ | ⟨q, rfl⟩ := h
  · trivial
  · trivial

theorem scalar_orNull {s : JsonShape} {v : Json} (hs : ∀ v, s.Fits v → Scalar (.json v))
    (h : (JsonShape.orNull s).Fits v) : Scalar (.json v) := by
  rcases h with rfl | h
  · trivial
  · exact hs v h

theorem Scalar.orElse {v w : Js} (hv : Scalar v) (hw : Scalar w) : Scalar (v.orElse w) := by
  rw [Js.orElse]
  split
  · exact hv
  · exact hw

theorem Scalar.string (host : Host) {v : Js} (h : Scalar v) : ∃ t, v.string host = .ok t := by
  cases v with
  | undefined => exact ⟨_, rfl⟩
  | json j =>
    cases j with
    | arr vs => exact h.elim
    | obj fields => exact h.elim
    | null => exact ⟨_, rfl⟩
    | bool b => exact ⟨_, rfl⟩
    | int n => exact ⟨_, rfl⟩
    | float q => exact ⟨_, rfl⟩
    | str t => exact ⟨_, rfl⟩

theorem Scalar.nullish {v w : Js} (hv : Scalar v) (hw : Scalar w) : Scalar (v.nullish w) := by
  rw [Js.nullish.eq_def]
  split
  · exact hw
  · exact hw
  · exact hv

/-! ## Records -/

/-- A field of a record. -/
theorem get_record {fields : List (String × JsonShape)} {v : Json}
    (h : (JsonShape.record fields).Fits v) (key : String) (s : JsonShape)
    (hmem : (key, s) ∈ fields) : ∃ x, (Js.json v).get key = .ok (.json x) ∧ s.Fits x := by
  obtain ⟨fs, rfl⟩ := (JsonShape.fits_record.mp h).1
  obtain ⟨x, hx, hfits⟩ := h.get hmem
  exact ⟨x, by rw [get_obj, hx]; rfl, hfits⟩

theorem bind_ok {α β : Type} {e : Except Thrown α} {a : α} (h : e = .ok a)
    (f : α → Except Thrown β) : (e >>= f) = f a := by
  rw [h]
  rfl

/-- What two pieces return has come through the first one. -/
theorem of_bind_ok {α β : Type} {e : Except Thrown α} {f : α → Except Thrown β} {b : β}
    (h : (e >>= f) = .ok b) : ∃ a, e = .ok a ∧ f a = .ok b := by
  cases e with
  | error t => exact absurd h (by simp [bind, Except.bind])
  | ok a => exact ⟨a, rfl, h⟩

/-- A list in a record. -/
theorem get_list {fields : List (String × JsonShape)} {v : Json}
    (h : (JsonShape.record fields).Fits v) (key : String) (s : JsonShape)
    (hmem : (key, .list s) ∈ fields) :
    ∃ items, (Js.json v).get key = .ok (.json (.arr items)) ∧ v.listLength key = items.length ∧
      ∀ i ∈ items, s.Fits i := by
  obtain ⟨fs, rfl⟩ := (JsonShape.fits_record.mp h).1
  obtain ⟨x, hx, items, rfl, hitems⟩ := h.get hmem
  refine ⟨items, by rw [get_obj, hx]; rfl, ?_, hitems⟩
  rw [Json.listLength, hx]

theorem truthy_record {fields : List (String × JsonShape)} {v : Json}
    (h : (JsonShape.record fields).Fits v) : (Js.json v).truthy = true := by
  obtain ⟨fs, rfl⟩ := (JsonShape.fits_record.mp h).1
  rfl

theorem orElse_record {fields : List (String × JsonShape)} {v : Json}
    (h : (JsonShape.record fields).Fits v) (d : Js) : (Js.json v).orElse d = .json v := by
  rw [Js.orElse, if_pos (truthy_record h)]

end Js
