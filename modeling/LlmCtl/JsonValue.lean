/-
# JSON values

The daemon's view of a decoded JSON text (`serde_json::Value`): the value type and
the accessors its code uses on requests and on the worker's answers.  Decoding
itself is `serde_json`'s and is not modelled.
-/
import Mathlib.Algebra.Ring.Int.Defs
import Mathlib.Algebra.Ring.Nat
import Mathlib.Data.Rat.Defs

/-- A decoded JSON value.  An object keeps its fields as key-value pairs, one for
each key. -/
inductive Json where
  | null
  | bool (b : Bool)
  | int (n : ℤ)
  | float (q : ℚ)
  | str (s : String)
  | arr (items : List Json)
  | obj (fields : List (String × Json))

namespace Json

/-- `Value::get` with a key: the field of an object, nothing on any other value. -/
def get? : Json → String → Option Json
  | .obj fields, key => (fields.find? fun f => f.1 == key).map Prod.snd
  | _, _ => none

/-- `Value::get` with an index: the element of an array, nothing on any other value. -/
def at? : Json → ℕ → Option Json
  | .arr items, n => items[n]?
  | _, _ => none

/-- `Value::as_str`. -/
def asStr : Json → Option String
  | .str s => some s
  | _ => none

/-- `Value::as_bool`. -/
def asBool : Json → Option Bool
  | .bool b => some b
  | _ => none

/-- `Value::as_i64`. -/
def asI64 : Json → Option ℤ
  | .int n => if -2 ^ 63 ≤ n ∧ n < 2 ^ 63 then some n else none
  | _ => none

/-- The double nearest to an integer, ties to even. -/
def nearestDouble (n : ℤ) : ℚ :=
  let ulp := 2 ^ (n.natAbs.log2 - 52)
  let q := n.natAbs / ulp
  let r := n.natAbs % ulp
  let up := ulp < 2 * r ∨ (2 * r = ulp ∧ q % 2 = 1)
  n.sign * ((if up then q + 1 else q) * ulp : ℕ)

/-- `Value::as_f64`. -/
def asF64 : Json → Option ℚ
  | .int n => some (nearestDouble n)
  | .float q => some q
  | _ => none

example : asF64 (.int (2 ^ 53 + 1)) = some (2 ^ 53) := by decide +kernel

end Json
