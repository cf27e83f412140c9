/-
# The pinned certificates (`pve.rs`)

The client for the ops tier trusts the certificates of one file, and no others.  `client` splits
the text at the BEGIN markers, cuts each block behind its first END marker, and skips a block that
does not end with one.

The two markers can overlap: a block without an END marker, that begins as one would go on after
its dashes, ends with a marker once the BEGIN marker is in front of it.

The texts are lists of characters: `find` and `split` stop at whole characters only.
-/
import LlmCtl.ConfigFile
import LlmCtl.StreamCollector
import LlmCtl.TextParse
import LlmCtl.TextSearch
import Mathlib.Data.List.DropRight

namespace LlmCtl

open Marker

/-! ## `client` -/

/-- `-----BEGIN CERTIFICATE-----` -/
def beginCert : Marker Char := ⟨"-----BEGIN CERTIFICATE-----".toList, by decide⟩

/-- `-----END CERTIFICATE-----` -/
def endCert : Marker Char := ⟨"-----END CERTIFICATE-----".toList, by decide⟩

/-- The loop of `client`: the block that goes to `Certificate::from_pem`, if any. -/
def wrapBlock (block : List Char) : Option (List Char) :=
  let stop := ((endCert.find block).map (· + endCert.length)).getD block.length
  let wrapped := beginCert.text ++ block.take stop
  if endCert.text <:+ (trim (String.ofList wrapped)).toList then some wrapped else none

/-- What goes to `Certificate::from_pem`, block by block. -/
def handedOver (pem : List Char) : List (List Char) :=
  ((beginCert.split pem).drop 1).filterMap wrapBlock

/-- How the client is set up. -/
structure PinnedClient (C : Type*) where
  roots : List C
  builtInRoots : Bool
  timeoutSecs : ℕ

/-- Why there is no client. -/
inductive PinError where
  | notPinned
  | unreadable (path : String)
  | noCertificates (path : String)
  deriving DecidableEq

section

variable {C : Type*} (fromPem : List Char → Option C)

/-- The loop of `client`: the roots, and how many were found. -/
def addRoots (pem : List Char) : List C × ℕ :=
  (handedOver pem).foldl
    (fun st block =>
      match fromPem block with
      | some c => (st.1 ++ [c], st.2 + 1)
      | none => st)
    ([], 0)

/-- **`client`**, up to the TLS library. -/
def client (home : Option String) (readFile : String → Option String) (proxmox : Proxmox) :
    Except PinError (PinnedClient C) :=
  match proxmox.certFile with
  | none => .error .notPinned
  | some certPath =>
    let path := expandTilde home certPath
    match readFile path with
    | none => .error (.unreadable path)
    | some pem =>
      let r := addRoots fromPem pem.toList
      if r.2 = 0 then .error (.noCertificates path) else .ok ⟨r.1, false, 8⟩

end

/-! ## The bundle -/

/-- The certificates of a text: from each BEGIN marker to the end of the first END marker that
stands between it and the next BEGIN marker. -/
def bundle (pem : List Char) : List (List Char) :=
  (beginCert.spans pem).filterMap fun p =>
    (endCert.firstIn pem (p.1 + beginCert.length) p.2).map fun e =>
      slice pem p.1 (e + endCert.length)

/-- A block that completes an END marker of which the BEGIN marker has the first dashes. -/
def Completes (block : List Char) : Prop :=
  ∃ k, 1 ≤ k ∧ k ≤ 5 ∧ block.rdropWhile isWhiteSpace = endCert.text.drop k

/-! ## One block -/

/-- Only the end of a block is trimmed. -/
theorem trim_wrapped (block : List Char) :
    (trim (String.ofList (beginCert.text ++ block))).toList =
      beginCert.text ++ block.rdropWhile isWhiteSpace := by
  have hbegin : (beginCert.text ++ block).dropWhile isWhiteSpace = beginCert.text ++ block :=
    List.dropWhile_cons_of_neg (by decide)
  have hend : beginCert.text.reverse.dropWhile isWhiteSpace = beginCert.text.reverse := by decide
  rw [trim, String.toList_ofList, String.toList_ofList, hbegin, List.reverse_append,
    List.dropWhile_append, List.rdropWhile]
  split
  · next hempty => rw [hend, List.isEmpty_iff.mp hempty, List.reverse_reverse, List.reverse_nil,
      List.append_nil]
  · rw [List.reverse_append, List.reverse_reverse]

/-- What stands before an END marker is not trimmed. -/
theorem rdropWhile_endCert (front : List Char) :
    (front ++ endCert.text).rdropWhile isWhiteSpace = front ++ endCert.text := by
  have hconcat : endCert.text = endCert.text.dropLast ++ ['-'] := by decide
  rw [hconcat, ← List.append_assoc]
  exact List.rdropWhile_concat_neg _ _ _ (by decide)

/-- A block is cut behind its END marker. -/
theorem wrapBlock_of_find {block : List Char} {i : ℕ} (h : endCert.find block = some i) :
    wrapBlock block = some (beginCert.text ++ block.take (i + endCert.length)) := by
  obtain ⟨rest, hrest⟩ := (find_eq_some_iff.mp h).1
  have htake : block.take (i + endCert.length) = block.take i ++ endCert.text := by
    rw [List.take_add, ← hrest]
    exact congrArg _ (List.take_left' rfl)
  have hend : endCert.text <:+ beginCert.text ++ (block.take i ++ endCert.text) :=
    ⟨beginCert.text ++ block.take i, List.append_assoc _ _ _⟩
  simp only [wrapBlock, h, Option.map_some, Option.getD_some, htake, trim_wrapped,
    rdropWhile_endCert, if_pos hend]

/-- The markers overlap by one to five dashes. -/
theorem overlap_of_suffix {s : List Char} (h : endCert.text <:+ beginCert.text ++ s)
    (hnot : ¬ endCert.text <:+ s) : ∃ k, 1 ≤ k ∧ k ≤ 5 ∧ s = endCert.text.drop k := by
  obtain ⟨front, hfront⟩ := h
  rcases List.append_eq_append_iff.mp hfront with ⟨dashes, hbegin, hend⟩ | ⟨rest, -, hs⟩
  · have hlen := congrArg List.length hend
    have hdash : ∀ k ≤ 25, beginCert.text.drop (27 - k) = endCert.text.take k → k ≤ 5 := by decide
    rw [List.length_append] at hlen
    have htotal : endCert.text.length = 25 := by decide
    have hdashes : beginCert.text.drop (27 - dashes.length) = endCert.text.take dashes.length := by
      have hlenbegin := congrArg List.length hbegin
      have htotal' : beginCert.text.length = 27 := by decide
      rw [List.length_append] at hlenbegin
      rw [hend, List.take_left' rfl, hbegin, List.drop_left' (by omega)]
    refine ⟨dashes.length, ?_, hdash _ (by omega) hdashes, ?_⟩
    · by_contra hzero
      have hnil : dashes = [] := List.length_eq_zero_iff.mp (by omega)
      rw [hnil, List.nil_append] at hend
      exact hnot (hend ▸ List.suffix_rfl)
    · rw [hend, List.drop_left' rfl]
  · exact absurd ⟨rest, hs.symm⟩ hnot

/-- A block with an END marker does not complete one. -/
theorem find_of_completes {block : List Char} (h : Completes block) :
    endCert.find block = none := by
  obtain ⟨k, hk, -, htrim⟩ := h
  refine find_eq_none_iff.mpr fun i ⟨rest, hrest⟩ => ?_
  -- What is left of the block is shorter than the marker.
  have hlong : endCert.text.length ≤ (block.rdropWhile isWhiteSpace).length := by
    have hblock : block = (block.take i ++ endCert.text) ++ rest := by
      rw [List.append_assoc, hrest, List.take_append_drop]
    have hcut : (endCert.text.reverse ++ (block.take i).reverse).dropWhile isWhiteSpace =
        endCert.text.reverse ++ (block.take i).reverse := List.dropWhile_cons_of_neg (by decide)
    rw [hblock, List.rdropWhile, List.reverse_append, List.reverse_append, List.dropWhile_append]
    split
    · rw [hcut]
      simp only [List.length_reverse, List.length_append]
      omega
    · simp only [List.length_reverse, List.length_append]
      omega
  rw [htrim, List.length_drop] at hlong
  have hpos := endCert.length_pos
  unfold Marker.length at hpos
  omega

/-- A block without an END marker is skipped, unless it completes one. -/
theorem wrapBlock_of_find_none {block : List Char} (h : endCert.find block = none) :
    wrapBlock block = none ∨ (wrapBlock block = some (beginCert.text ++ block) ∧
      Completes block) := by
  simp only [wrapBlock, h, Option.map_none, Option.getD_none, List.take_length, trim_wrapped]
  split
  · next hsuffix =>
    refine .inr ⟨rfl, overlap_of_suffix hsuffix fun hin => ?_⟩
    -- The trimmed block is the beginning of the block.
    obtain ⟨front, hfront⟩ := hin
    obtain ⟨rest, hrest⟩ := List.rdropWhile_prefix isWhiteSpace (l := block)
    refine find_eq_none_iff.mp h front.length ⟨rest, ?_⟩
    rw [← hrest, ← hfront, List.append_assoc, List.drop_left' rfl]
  · exact .inl rfl

theorem wrapBlock_of_completes {block : List Char} (h : Completes block) :
    wrapBlock block = some (beginCert.text ++ block) := by
  have hsuffix : endCert.text <:+ beginCert.text ++ block.rdropWhile isWhiteSpace := by
    obtain ⟨k, hk, hk5, htrim⟩ := h
    have hdashes : ∀ k ≤ 5, endCert.text <:+ beginCert.text ++ endCert.text.drop k := by decide
    rw [htrim]
    exact hdashes k hk5
  simp only [wrapBlock, find_of_completes h, Option.map_none, Option.getD_none, List.take_length,
    trim_wrapped, if_pos hsuffix]

/-! ## All blocks -/

section

variable {pem : List Char}

/-- What `bundle` has of a block. -/
def certOf (pem : List Char) (p : ℕ × ℕ) : Option (List Char) :=
  (endCert.firstIn pem (p.1 + beginCert.length) p.2).map fun e =>
    slice pem p.1 (e + endCert.length)

/-- What stands between a BEGIN marker and the next one. -/
def blockOf (pem : List Char) (p : ℕ × ℕ) : List Char := slice pem (p.1 + beginCert.length) p.2

/-- A block is handed over as it stands in the bundle, unless it completes a marker. -/
theorem wrapBlock_span {p : ℕ × ℕ} (hp : p ∈ beginCert.spans pem) :
    (¬ Completes (blockOf pem p) ∧ wrapBlock (blockOf pem p) = certOf pem p) ∨
      (Completes (blockOf pem p) ∧ certOf pem p = none) := by
  obtain ⟨hat, hle, -⟩ := spans_ordered p hp
  have hfind : endCert.find (blockOf pem p) = _ := find_slice endCert pem _ p.2
  cases hfirst : endCert.firstIn pem (p.1 + beginCert.length) p.2 with
  | some e =>
    obtain ⟨⟨hlo, -, hhi⟩, -⟩ := firstIn_eq_some_iff.mp hfirst
    rw [hfirst, Option.map_some] at hfind
    refine .inl ⟨fun hcompletes => ?_, ?_⟩
    · rw [find_of_completes hcompletes] at hfind
      exact absurd hfind (by simp)
    · have hstop : p.1 + beginCert.length + (e - (p.1 + beginCert.length) + endCert.length)
          = e + endCert.length := by omega
      rw [wrapBlock_of_find hfind, certOf, hfirst, Option.map_some, blockOf,
        take_slice (by omega), hstop, ← hat.slice, slice_append (by omega) (by omega)]
  | none =>
    rw [hfirst, Option.map_none] at hfind
    have hcert : certOf pem p = none := by rw [certOf, hfirst, Option.map_none]
    by_cases hcompletes : Completes (blockOf pem p)
    · exact .inr ⟨hcompletes, hcert⟩
    · refine .inl ⟨hcompletes, ?_⟩
      rcases wrapBlock_of_find_none hfind with hnone | ⟨-, hbad⟩
      · rw [hnone, hcert]
      · exact absurd hbad hcompletes

end

section

variable {α β : Type*} {f g : α → Option β} {l : List α}

theorem length_filterMap_le (h : ∀ x ∈ l, f x = g x ∨ g x = none) :
    (l.filterMap g).length ≤ (l.filterMap f).length := by
  induction l with
  | nil => exact le_rfl
  | cons x l ih =>
    obtain ⟨hx, hl⟩ := List.forall_mem_cons.mp h
    replace ih := ih hl
    rw [List.filterMap_cons, List.filterMap_cons]
    rcases hx with hx | hx
    · rw [hx]
      cases g x with
      | none => exact ih
      | some y => exact Nat.succ_le_succ ih
    · rw [hx]
      cases f x with
      | none => exact ih
      | some y => exact Nat.le_succ_of_le ih

/-- Where one function has all that another one has, they yield the same just if they agree. -/
theorem filterMap_eq_iff (h : ∀ x ∈ l, f x = g x ∨ g x = none) :
    l.filterMap f = l.filterMap g ↔ ∀ x ∈ l, f x = g x := by
  refine ⟨fun heq => ?_, List.filterMap_congr⟩
  induction l with
  | nil => exact fun x hx => absurd hx List.not_mem_nil
  | cons x l ih =>
    obtain ⟨hx, hl⟩ := List.forall_mem_cons.mp h
    have hlen := length_filterMap_le hl
    rw [List.filterMap_cons, List.filterMap_cons] at heq
    have hagree : f x = g x := by
      rcases hx with hx | hx
      · exact hx
      · cases hf : f x with
        | none => exact hx.symm
        | some y =>
          -- One more, and no fewer of the others.
          rw [hf, hx] at heq
          have hmore : (l.filterMap f).length + 1 = (l.filterMap g).length :=
            congrArg List.length heq
          omega
    refine List.forall_mem_cons.mpr ⟨hagree, ih hl ?_⟩
    rw [hagree] at heq
    cases hg : g x with
    | none =>
      rw [hg] at heq
      exact heq
    | some y =>
      rw [hg] at heq
      exact (List.cons.inj heq).2

end

/-! ## The client -/

section

variable {C : Type*} (fromPem : List Char → Option C)

theorem addRoots_eq (pem : List Char) :
    addRoots fromPem pem =
      ((handedOver pem).filterMap fromPem, ((handedOver pem).filterMap fromPem).length) := by
  have hfold (blocks : List (List Char)) (roots : List C) (found : ℕ) :
      blocks.foldl
        (fun st block =>
          match fromPem block with
          | some c => (st.1 ++ [c], st.2 + 1)
          | none => st) (roots, found)
        = (roots ++ blocks.filterMap fromPem, found + (blocks.filterMap fromPem).length) := by
    induction blocks generalizing roots found with
    | nil => rw [List.foldl_nil, List.filterMap_nil, List.append_nil, List.length_nil, Nat.add_zero]
    | cons block blocks ih =>
      rw [List.foldl_cons, List.filterMap_cons]
      cases fromPem block with
      | none => exact ih roots found
      | some c =>
        rw [ih, List.append_assoc, List.length_cons]
        exact congrArg _ (by omega)
  rw [addRoots, hfold, List.nil_append, Nat.zero_add]

/-- What the client has of a text: the certificates of its bundle go to `from_pem`, and those that
parse are the roots; without any there is no client. -/
structure PinsBundle (pem : String) : Prop where
  handed : handedOver pem.toList = bundle pem.toList
  built : ∀ home readFile proxmox certPath, proxmox.certFile = some certPath →
    readFile (expandTilde home certPath) = some pem →
    client fromPem home readFile proxmox =
      if (bundle pem.toList).filterMap fromPem = [] then
        .error (.noCertificates (expandTilde home certPath))
      else .ok ⟨(bundle pem.toList).filterMap fromPem, false, 8⟩

/-- **The bundle is pinned just if no block completes an END marker that its BEGIN marker has
begun.** -/
theorem pins_bundle_iff (pem : String) :
    PinsBundle fromPem pem ↔
      ∀ p ∈ beginCert.spans pem.toList, ¬ Completes (blockOf pem.toList p) := by
  have hhanded : handedOver pem.toList = bundle pem.toList ↔
      ∀ p ∈ beginCert.spans pem.toList, ¬ Completes (blockOf pem.toList p) := by
    have hblocks : (beginCert.split pem.toList).drop 1 =
        (beginCert.spans pem.toList).map (blockOf pem.toList) := drop_split _ _
    have hbundle : bundle pem.toList =
        (beginCert.spans pem.toList).filterMap (certOf pem.toList) := rfl
    rw [handedOver, hblocks, List.filterMap_map, hbundle, filterMap_eq_iff]
    · refine forall₂_congr fun p hp => ?_
      rw [Function.comp_apply]
      rcases wrapBlock_span hp with ⟨hnot, heq⟩ | ⟨hcompletes, hnone⟩
      · exact iff_of_true heq hnot
      · rw [wrapBlock_of_completes hcompletes, hnone]
        exact iff_of_false (by simp) (not_not.mpr hcompletes)
    · intro p hp
      rw [Function.comp_apply]
      exact (wrapBlock_span hp).imp And.right And.right
  rw [← hhanded]
  refine ⟨PinsBundle.handed, fun h => ⟨h, ?_⟩⟩
  intro home readFile proxmox certPath hfile hread
  simp only [client, hfile, hread, addRoots_eq, h, List.length_eq_zero_iff]

end

/-- A BEGIN marker that goes on as an END marker: there is no END marker after it. -/
theorem overlapping_markers_pinned :
    ¬ ∀ pem, PinsBundle (fun block => some block) pem := fun h =>
  absurd (h "-----BEGIN CERTIFICATE-----END CERTIFICATE-----").handed (by decide +kernel)

end LlmCtl
