/-
# Requests of the HTTP libraries

What `http` and `axum` give a handler: the method, the target as the client spelled it, a header
map and the body.  A target is split at its first question mark, so a path has none.
-/
import LlmCtl.MultiMap

namespace LlmCtl

/-- `Method`. -/
inductive Method where
  | options
  | get
  | post
  | put
  | delete
  | head
  | trace
  | connect
  | patch
  | extension (name : String)
  deriving DecidableEq, Repr

/-- The bytes of a text without other characters than ASCII. -/
def asciiBytes (s : String) : List UInt8 := s.toList.map fun c => c.toNat.toUInt8

/-- The byte `?`. -/
def questionMark : UInt8 := 63

/-- `to_ascii_lowercase`. -/
def asciiLower (s : String) : String := String.ofList (s.toList.map Char.toLower)

/-- `HeaderMap`. -/
abbrev HeaderMap := MultiMap String (List UInt8)

/-- `Request<Body>`: the method, the path and the query of the target, the headers, the body. -/
structure Request where
  method : Method
  path : List UInt8
  query : Option (List UInt8)
  headers : HeaderMap
  body : List UInt8
  path_plain : questionMark ∉ path

end LlmCtl
