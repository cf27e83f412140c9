/-
# Parsed JSON in a script

What a browser's script does with a parsed JSON text: it reads fields, asks whether a value counts
as true, and makes texts of values.  A field of `null` or `undefined` and a method that the value
does not have raise a `TypeError`.

Numbers and dates are the browser's (`Host`).
-/
import LlmCtl.JsonValue

/-- A value of the script: a parsed one, or `undefined`. -/
inductive Js where
  | undefined
  | json (v : Json)

/-- What the script throws. -/
inductive Thrown where
  | typeError
  deriving DecidableEq

namespace Js

/-- `v.key`, for a key that only objects have. -/
def get (v : Js) (key : String) : Except Thrown Js :=
  match v with
  | .undefined => .error .typeError
  | .json .null => .error .typeError
  | .json j => .ok (((j.get? key).map Js.json).getD .undefined)

/-- Whether the value counts as true. -/
def truthy : Js → Bool
  | .undefined => false
  | .json .null => false
  | .json (.bool b) => b
  | .json (.int n) => n != 0
  | .json (.float q) => q != 0
  | .json (.str s) => s != ""
  | .json (.arr _) => true
  | .json (.obj _) => true

/-- `v || w`. -/
def orElse (v w : Js) : Js := if v.truthy then v else w

/-- `v ?? w`. -/
def nullish (v w : Js) : Js :=
  match v with
  | .undefined => w
  | .json .null => w
  | v => v

/-- `v === w`.  An array or an object is the same as itself only; the scripts compare nothing but
texts, which may be missing, and here no two of them are the same. -/
def strictEq : Js → Js → Bool
  | .undefined, .undefined => true
  | .json .null, .json .null => true
  | .json (.bool a), .json (.bool b) => a == b
  | .json (.int a), .json (.int b) => a == b
  | .json (.int a), .json (.float b) => (a : ℚ) == b
  | .json (.float a), .json (.int b) => a == (b : ℚ)
  | .json (.float a), .json (.float b) => a == b
  | .json (.str a), .json (.str b) => a == b
  | _, _ => false

/-- A text. -/
def text (s : String) : Js := .json (.str s)

/-- The items that `map` and `find` go through. -/
def items : Js → Except Thrown (List Json)
  | .json (.arr vs) => .ok vs
  | _ => .error .typeError

/-- `v.length`. -/
def length : Js → Except Thrown Js
  | .json (.arr vs) => .ok (.json (.int vs.length))
  | .json (.str s) =>
    .ok (.json (.int (s.toList.map fun c => if c.toNat < 65536 then 1 else 2).sum))
  | v => v.get "length"

/-- `typeof v === "number"`. -/
def isNumber : Js → Bool
  | .json (.int _) => true
  | .json (.float _) => true
  | _ => false

/-- `v?.key`. -/
def getIfThere (v : Js) (key : String) : Except Thrown Js :=
  match v with
  | .undefined => .ok .undefined
  | .json .null => .ok .undefined
  | v => v.get key

/-- `v[0]`. -/
def first : Js → Except Thrown Js
  | .json (.arr vs) => .ok ((vs.head?.map Js.json).getD .undefined)
  | .json (.str s) => .ok ((s.toList.head?.map fun c => text (String.ofList [c])).getD .undefined)
  | v => v.get "0"

/-- The numbers and the dates of the browser. -/
structure Host where
  Num : Type
  /-- `Number(v)`. -/
  number : Js → Num
  isFinite : Num → Bool
  round : Num → Num
  /-- `x >= n`. -/
  atLeast : Num → ℕ → Bool
  /-- `String(x)`. -/
  text : Num → String
  /-- `x.toFixed(1)`. -/
  toFixed : Num → String
  /-- `new Date(x * 1000).toLocaleString()`. -/
  localeString : Num → String

section Text

variable (host : Host)

mutual

/-- `String(v)`, of a parsed value.  A field `toString` hides the method. -/
def stringOfJson : Json → Except Thrown String
  | .null => .ok "null"
  | .bool b => .ok (if b then "true" else "false")
  | .int n => .ok (host.text (host.number (.json (.int n))))
  | .float q => .ok (host.text (host.number (.json (.float q))))
  | .str s => .ok s
  | .arr vs => (stringsOfItems vs).map (String.intercalate ",")
  | .obj fields =>
    if ((Json.obj fields).get? "toString").isSome then .error .typeError else .ok "[object Object]"

/-- The texts that `join` joins. -/
def stringsOfItems : List Json → Except Thrown (List String)
  | [] => .ok []
  | .null :: vs => (stringsOfItems vs).map ("" :: ·)
  | v :: vs => (stringOfJson v).bind fun s => (stringsOfItems vs).map (s :: ·)

end

/-- `String(v)`. -/
def string : Js → Except Thrown String
  | .undefined => .ok "undefined"
  | .json v => stringOfJson host v

/-- `v.toFixed(1)`. -/
def toFixed : Js → Except Thrown String
  | .json (.int n) => .ok (host.toFixed (host.number (.json (.int n))))
  | .json (.float q) => .ok (host.toFixed (host.number (.json (.float q))))
  | _ => .error .typeError

end Text

/-! ## Values of a known kind -/

@[simp] theorem get_obj (fields : List (String × Json)) (key : String) :
    (Js.json (.obj fields)).get key
      = .ok ((((Json.obj fields).get? key).map Js.json).getD .undefined) := rfl

/-- The text of a text is itself. -/
theorem stringsOfItems_text (host : Host) (s : String) (vs : List Json) :
    stringsOfItems host (.str s :: vs) = (stringsOfItems host vs).map (s :: ·) := by
  rw [stringsOfItems, stringOfJson]
  · rfl
  · exact nofun

end Js
