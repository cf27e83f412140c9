/-
# The id of a downloaded model (`download.rs`)

`derive_id` makes an id of any path: of the stem of the file name it keeps the alphanumeric
characters, with one dash for whatever is between them.  What comes out can stand in the
configuration file between quotes as it is and is one segment of a route, and it is its own id.
-/
import LlmCtl.ConfigAppend
import LlmCtl.JoinedWords
import Mathlib.Data.Bool.AllAny

namespace LlmCtl

open Toml

/-- **The normal form of an id.** -/
structure NormalId (unicode : Char → Bool) (id : List Char) : Prop where
  nonempty : id ≠ []
  alphanumeric : ∀ c ∈ id, isAlphanumeric unicode c = true ∨ c = '-'
  lower : ∀ c ∈ id, c.isUpper = false
  lead : id.head? ≠ some '-'
  trail : id.getLast? ≠ some '-'
  single : id.IsChain fun a b => a ≠ '-' ∨ b ≠ '-'

/-! ## Letters -/

theorem not_isAlphanumeric_dash (unicode : Char → Bool) : isAlphanumeric unicode '-' = false :=
  if_pos (by decide)

/-- A letter of the lower case, or what was there. -/
theorem toLower_cases (c : Char) :
    (97 ≤ c.toLower.toNat ∧ c.toLower.toNat ≤ 122) ∨ (c.toLower = c ∧ c.isUpper = false) := by
  by_cases hupper : c.val ≥ 'A'.val ∧ c.val ≤ 'Z'.val
  · have hlow : 65 ≤ c.val.toNat := UInt32.le_iff_toNat_le.mp hupper.1
    have hhigh : c.val.toNat ≤ 90 := UInt32.le_iff_toNat_le.mp hupper.2
    have hval : c.toLower.val = c.val + ('a'.val - 'A'.val) := by
      show (if h : c.val ≥ 'A'.val ∧ c.val ≤ 'Z'.val then (⟨_, _⟩ : Char) else c).val = _
      rw [dif_pos hupper]
    have hadd : c.toLower.toNat = c.val.toNat + 32 := by
      show c.toLower.val.toNat = _
      rw [hval, UInt32.toNat_add]
      show (c.val.toNat + 32) % 2 ^ 32 = _
      omega
    exact .inl (by omega)
  · exact .inr ⟨dif_neg hupper, decide_eq_false hupper⟩

theorem isUpper_of_small {c : Char} (h : 97 ≤ c.toNat) : c.isUpper = false := by
  refine decide_eq_false fun hupper => ?_
  have hhigh : c.toNat ≤ 90 := UInt32.le_iff_toNat_le.mp hupper.2
  omega

theorem isAlphanumeric_of_small {unicode : Char → Bool} {c : Char} (hlow : 97 ≤ c.toNat)
    (hhigh : c.toNat ≤ 122) : isAlphanumeric unicode c = true := by
  rw [isAlphanumeric, if_pos (by omega), isAlphanum_iff]
  exact .inr (.inl ⟨UInt32.le_iff_toNat_le.mpr hlow, UInt32.le_iff_toNat_le.mpr hhigh⟩)

/-- Lower case stays alphanumeric. -/
theorem isAlphanumeric_toLower {unicode : Char → Bool} {c : Char}
    (h : isAlphanumeric unicode c = true) : isAlphanumeric unicode c.toLower = true := by
  rcases toLower_cases c with ⟨hlow, hhigh⟩ | ⟨hsame, -⟩
  · exact isAlphanumeric_of_small hlow hhigh
  · rw [hsame, h]

theorem isUpper_toLower (c : Char) : c.toLower.isUpper = false := by
  rcases toLower_cases c with ⟨hlow, -⟩ | ⟨hsame, hupper⟩
  · exact isUpper_of_small hlow
  · rw [hsame, hupper]

theorem toLower_eq_self {c : Char} (h : c.isUpper = false) : c.toLower = c :=
  dif_neg (of_decide_eq_false h)

/-! ## The loop -/

/-- The loop of `derive_id` joins words with dashes. -/
theorem slug_eq (unicode : Char → Bool) (dash : Bool) (cs : List Char) :
    slug unicode dash cs
      = JoinedWords.squeeze (isAlphanumeric unicode) Char.toLower '-' dash cs := by
  induction cs generalizing dash with
  | nil => rfl
  | cons c cs ih => rw [slug, JoinedWords.squeeze, ih true, ih false]

theorem trimDashes_slug (unicode : Char → Bool) (cs : List Char) :
    trimDashes (slug unicode false cs)
      = JoinedWords.normalize (isAlphanumeric unicode) Char.toLower '-' cs := by
  rw [slug_eq]
  rfl

theorem isJoined_slug (unicode : Char → Bool) (cs : List Char) :
    JoinedWords.IsJoined (isAlphanumeric unicode) Char.toLower '-'
      (trimDashes (slug unicode false cs)) := by
  rw [trimDashes_slug]
  exact JoinedWords.isJoined_normalize (not_isAlphanumeric_dash unicode)
    (fun c hc => isAlphanumeric_toLower hc)
    (fun c _ => toLower_eq_self (isUpper_toLower c)) cs

/-- Normal ids are words joined by dashes, and there is something to them. -/
theorem normalId_iff {unicode : Char → Bool} {id : List Char} :
    NormalId unicode id ↔
      id ≠ [] ∧ JoinedWords.IsJoined (isAlphanumeric unicode) Char.toLower '-' id := by
  constructor
  · intro h
    refine ⟨h.nonempty, fun c hc => ?_, h.lead, h.trail, h.single⟩
    exact (h.alphanumeric c hc).imp_left fun halpha => ⟨halpha, toLower_eq_self (h.lower c hc)⟩
  · rintro ⟨hne, h⟩
    refine ⟨hne, fun c hc => (h.letters c hc).imp_left And.left, fun c hc => ?_, h.lead, h.trail,
      h.single⟩
    rcases h.letters c hc with ⟨-, hsame⟩ | rfl
    · rw [← hsame, isUpper_toLower]
    · decide

/-! ## The stem of an id -/

theorem NormalId.notMem {unicode : Char → Bool} {id : List Char} (h : NormalId unicode id)
    {c : Char} (hdash : c ≠ '-') (hc : isAlphanumeric unicode c = false) : c ∉ id := by
  intro hmem
  rcases h.alphanumeric c hmem with halpha | rfl
  · rw [hc] at halpha
    exact Bool.false_ne_true halpha
  · exact hdash rfl

/-- A name without dots and slashes is its own stem. -/
theorem fileStem_eq_self {name : List Char} (hne : name ≠ []) (hslash : '/' ∉ name)
    (hdot : '.' ∉ name) : fileStem name = some name := by
  have hsplit : name.splitOn '/' = [name] := List.splitOn_eq_singleton hslash
  have hdots : name ≠ ['.'] ∧ name ≠ ['.', '.'] :=
    ⟨fun h => hdot (by simp [h]), fun h => hdot (by simp [h])⟩
  have hname : fileName name = some name := by
    simp [fileName, hsplit, hne, hdots.1, hdots.2]
  rw [fileStem, hname, Option.map_some, dropWhile_reverse_of_notMem hdot]
  rfl

/-! ## The id -/

theorem normalId_deriveId (unicode : Char → Bool) (path : String) :
    NormalId unicode (deriveId unicode path).toList := by
  simp only [deriveId]
  split
  · have hfallback : ∀ c ∈ "hf-model".toList, 97 ≤ c.toNat ∧ c.toNat ≤ 122 ∨ c = '-' :=
      List.all_iff_forall_prop.mp (by decide)
    refine ⟨by decide, fun c hc => ?_, fun c hc => ?_, by decide,
      by decide, by decide⟩
    · exact (hfallback c hc).imp_left fun h => isAlphanumeric_of_small h.1 h.2
    · rcases hfallback c hc with ⟨hlow, -⟩ | rfl
      · exact isUpper_of_small hlow
      · decide
  · next hne =>
    rw [String.toList_ofList]
    exact normalId_iff.mpr ⟨hne, isJoined_slug unicode _⟩

/-- **An id in normal form is derived from itself.** -/
theorem deriveId_of_normalId {unicode : Char → Bool} {id : String}
    (h : NormalId unicode id.toList) : deriveId unicode id = id := by
  have hslash : '/' ∉ id.toList := h.notMem (by decide) (if_pos (by decide))
  have hdot : '.' ∉ id.toList := h.notMem (by decide) (if_pos (by decide))
  have hself : trimDashes (slug unicode false id.toList) = id.toList := by
    rw [trimDashes_slug]
    exact JoinedWords.normalize_of_isJoined (not_isAlphanumeric_dash unicode)
      (normalId_iff.mp h).2
  simp only [deriveId]
  rw [fileStem_eq_self h.nonempty hslash hdot, Option.getD_some, hself, if_neg h.nonempty,
    String.ofList_toList]

/-- **`derive_id` makes a normal form of every path**: a text that can stand between quotes as it
is and holds no slash, and from which the same id is derived. -/
theorem derived_id_normal (unicode : Char → Bool) (path : String) :
    NormalId unicode (deriveId unicode path).toList ∧
      Plain (deriveId unicode path).toList ∧ '/' ∉ (deriveId unicode path).toList ∧
      deriveId unicode (deriveId unicode path) = deriveId unicode path := by
  have h := normalId_deriveId unicode path
  exact ⟨h, deriveId_plain unicode path, h.notMem (by decide) (if_pos (by decide)),
    deriveId_of_normalId h⟩

end LlmCtl
