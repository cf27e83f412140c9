/-
# A model from a downloaded file (`download.rs`)

The id of a downloaded model is derived from the name of its file, and the model is appended to
`config.toml` as text, unless the text already contains a line that looks like its id.

Which characters beyond ASCII are alphanumeric is a matter of the Unicode tables, which stay a
parameter.
-/
import LlmCtl.WorkerState
import Mathlib.Data.List.Infix
import Mathlib.Data.List.TakeWhile

namespace LlmCtl

/-! ## `derive_id` -/

/-- `Path::file_name`: the last component of a path, unless it is `..`. -/
def fileName (path : List Char) : Option (List Char) :=
  let parts := (path.splitOn '/').filter fun p => p ≠ [] ∧ p ≠ ['.']
  parts.getLast?.bind fun name => if name = ['.', '.'] then none else some name

/-- `Path::file_stem`: the name up to its last dot, unless this is the first character. -/
def fileStem (path : List Char) : Option (List Char) :=
  (fileName path).map fun name =>
    let stem := (name.reverse.dropWhile (· ≠ '.')).drop 1
    if stem = [] then name else stem.reverse

/-- There is no last one of what is not there. -/
theorem dropWhile_reverse_of_notMem {α : Type*} [DecidableEq α] {d : α} {l : List α}
    (h : d ∉ l) : l.reverse.dropWhile (· ≠ d) = [] :=
  List.dropWhile_eq_nil_iff.mpr fun x hx =>
    decide_eq_true fun hxd => h (by rw [← hxd]; exact List.mem_reverse.mp hx)

/-- `char::is_alphanumeric`. -/
def isAlphanumeric (unicode : Char → Bool) (c : Char) : Bool :=
  if c.toNat < 128 then c.isAlphanum else unicode c

/-- The loop of `derive_id`: anything between two alphanumeric parts becomes one dash. -/
def slug (unicode : Char → Bool) (dash : Bool) : List Char → List Char
  | [] => []
  | c :: cs =>
    if isAlphanumeric unicode c then c.toLower :: slug unicode false cs
    else if dash then slug unicode true cs
    else '-' :: slug unicode true cs

/-- `trim_matches('-')`. -/
def trimDashes (cs : List Char) : List Char :=
  ((cs.dropWhile (· = '-')).reverse.dropWhile (· = '-')).reverse

/-- `derive_id`. -/
def deriveId (unicode : Char → Bool) (path : String) : String :=
  let id := trimDashes (slug unicode false ((fileStem path.toList).getD []))
  if id = [] then "hf-model" else String.ofList id

example : deriveId (fun _ => false) "/hub/snapshots/LFM2.5-8B-UD-Q5_K_XL.gguf"
    = "lfm2-5-8b-ud-q5-k-xl" := by decide

/-! ## `persist_model` -/

/-- What `persist_model` looks for in the text of the configuration. -/
def modelNeedle (id : String) : String := String.join ["id = \"", id, "\""]

/-- What it appends. -/
def modelBlock (id path desc : String) : String :=
  String.join ["\n[[models]]\nid          = \"", id, "\"\nmodel       = \"", path,
    "\"\nautostart   = false\ndescription = \"", desc, "\"\n"]

/-- `str::contains`. -/
def containsText (text needle : String) : Bool := decide (needle.toList <:+: text.toList)

/-- **`persist_model`**: the text of the file afterwards. -/
def persistModel (existing id path desc : String) : String :=
  if containsText existing (modelNeedle id) then existing
  else existing ++ modelBlock id path desc

end LlmCtl
