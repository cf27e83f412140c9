/-
# Is a model appended only once? (`download.rs`)

`persist_model` looks for `id = "…"` in the text of the configuration, and appends a block in
which the equals signs are aligned, so that there are ten blanks before the one of the id.  It
does not recognise what it has written.  A second call for the same id leaves the file alone just
if it can read it, and the first one found its entry already, or something else in the text that
it leaves happens to look like one.

The file is read and appended to in two accesses: what cannot be read is taken for an empty text,
and may well be appended to.
-/
import LlmCtl.ConfigAppend
import LlmCtl.Utf8Text

/-! ## Where a text occurs -/

namespace Occurrence

open List

variable {α : Type*}

/-- A list without an element occurs on one side of it. -/
theorem infix_append_cons_iff {n a b : List α} {x : α} (hx : x ∉ n) :
    n <:+: a ++ x :: b ↔ n <:+: a ∨ n <:+: b := by
  constructor
  · intro h
    rcases infix_append_iff.mp h with h | h | ⟨l₁, l₂, rfl, h₁, h₂⟩
    · exact .inl h
    · rcases infix_cons_iff.mp h with h | h
      · cases n with
        | nil => exact .inl nil_infix
        | cons y n =>
          obtain ⟨rfl, -⟩ := cons_prefix_cons.mp h
          exact absurd mem_cons_self hx
      · exact .inr h
    · cases l₂ with
      | nil =>
        rw [append_nil]
        exact .inl h₁.isInfix
      | cons y l₂ =>
        obtain ⟨rfl, -⟩ := cons_prefix_cons.mp h₂
        exact absurd (mem_append_right l₁ mem_cons_self) hx
  · rintro (h | h)
    · exact h.trans (infix_append' [] a (x :: b))
    · refine h.trans ?_
      rw [append_cons]
      exact (suffix_append (a ++ [x]) b).isInfix

/-- Nothing that begins like `opening` begins within `lead`. -/
def NoStart (opening lead : List α) : Prop :=
  ∀ s, s <:+ lead → s ≠ [] → ¬ opening <+: s ∧ ¬ s <+: opening

/-- What begins like `opening` does not begin within `lead`. -/
theorem infix_append_iff_of_noStart {opening lead r b : List α} (h : NoStart opening lead) :
    opening ++ r <:+: lead ++ b ↔ opening ++ r <:+: b := by
  constructor
  · intro hin
    rcases infix_append_iff.mp hin with ⟨s, t, hlead⟩ | hin | ⟨l₁, l₂, heq, h₁, h₂⟩
    · by_cases hnil : opening ++ r ++ t = []
      · obtain ⟨hnil, -⟩ := append_eq_nil_iff.mp hnil
        rw [hnil]
        exact nil_infix
      · have hsuffix : opening ++ r ++ t <:+ lead := ⟨s, by rw [← hlead, append_assoc s]⟩
        have hprefix : opening <+: opening ++ r ++ t := by
          rw [append_assoc]
          exact prefix_append _ _
        exact absurd hprefix (h _ hsuffix hnil).1
    · exact hin
    · by_cases hnil : l₁ = []
      · rw [heq, hnil]
        exact h₂.isInfix
      · have hopening : opening <+: l₁ ++ l₂ := ⟨r, heq⟩
        obtain ⟨hno, hno'⟩ := h l₁ h₁ hnil
        rcases prefix_or_prefix_of_prefix hopening (prefix_append l₁ l₂) with hp | hp
        · exact absurd hp hno
        · exact absurd hp hno'
  · exact fun hin => hin.trans (suffix_append lead b).isInfix

end Occurrence

namespace LlmCtl

/-! ## The file -/

/-- How the append to a file ends: the block is written, or `open` or `write_all` fails, after
some bytes of it. -/
inductive AppendEnd where
  | written
  | failed (bytes : ℕ) (e : String)
  deriving DecidableEq, Repr

/-- What the system lets a call do with a file that is there. -/
structure Access where
  reads : Bool
  append : AppendEnd

/-- `read_to_string(..).unwrap_or_default()`: a file that is missing, that cannot be read or that
is not UTF-8 is read like an empty one. -/
def existingText (a : Access) (file : Option (List UInt8)) : String :=
  if a.reads then (file.bind fromUtf8).getD "" else ""

/-- `persist_model`, on the bytes of a file, if there is one.  A missing file is not created. -/
def persistModelAt (a : Access) (file : Option (List UInt8)) (id path desc : String) :
    Except String Unit × Option (List UInt8) :=
  if containsText (existingText a file) (modelNeedle id) then (.ok (), file)
  else
    match file with
    | none => (.error "No such file or directory (os error 2)", none)
    | some bytes =>
      let block := utf8 (modelBlock id path desc).toList
      match a.append with
      | .written => (.ok (), some (bytes ++ block))
      | .failed n e => (.error e, some (bytes ++ block.take n))

/-- The call appends an entry. -/
def WritesEntry (a : Access) (file : Option (List UInt8)) (id path desc : String) : Prop :=
  (persistModelAt a file id path desc).1 = .ok () ∧
    (persistModelAt a file id path desc).2 ≠ file

/-! ## The property and its condition -/

/-- **A model is appended once**: after a call that returned, another call for the same id returns
and leaves the file as it is, so that two entries are never written for one id. -/
structure AppendedOnce (first second : Access) (file : Option (List UInt8))
    (id path desc : String) : Prop where
  again : (persistModelAt first file id path desc).1 = .ok () → ∀ path' desc',
    persistModelAt second (persistModelAt first file id path desc).2 id path' desc' =
      (.ok (), (persistModelAt first file id path desc).2)
  once : WritesEntry first file id path desc → ∀ path' desc',
    ¬ WritesEntry second (persistModelAt first file id path desc).2 id path' desc'

/-- An entry of the id is looked for and found. -/
def Access.Finds (a : Access) (bytes : List UInt8) (id : String) : Prop :=
  a.reads = true ∧ ∃ text, fromUtf8 bytes = some text ∧ containsText text (modelNeedle id) = true

/-- What is looked for stands in the text already, or in the path or the description with the
quote that closes it.  (An id with a line break may span the lines of the block.) -/
def EntrySeen (text id path desc : String) : Prop :=
  if '\n' ∈ id.toList then containsText (text ++ modelBlock id path desc) (modelNeedle id) = true
  else
    containsText text (modelNeedle id) = true ∨
      containsText (path ++ "\"") (modelNeedle id) = true ∨
      containsText (desc ++ "\"") (modelNeedle id) = true

/-- When the first call finds an entry, or can append one, the second can read the file, which is
a text in which it sees one. -/
def SeenAgain (first second : Access) (bytes : List UInt8) (id path desc : String) : Prop :=
  first.Finds bytes id ∨ first.append = .written →
    second.reads = true ∧ ∃ text, fromUtf8 bytes = some text ∧ EntrySeen text id path desc

/-! ## The search through the block -/

/-- How an entry begins for the search. -/
def needleOpen : List Char := "id = \"".toList

theorem modelNeedle_toList (id : String) :
    (modelNeedle id).toList = needleOpen ++ (id.toList ++ ['"']) := by
  have hopen : "id = \"".toList = needleOpen := rfl
  have hclose : "\"".toList = ['"'] := by decide
  simp only [modelNeedle, String.join, List.foldl_cons, List.foldl_nil, String.toList_append,
    String.toList_empty, hopen, hclose, List.nil_append, List.append_assoc]

theorem containsText_iff (text id : String) :
    containsText text (modelNeedle id) = true ↔
      needleOpen ++ (id.toList ++ ['"']) <:+: text.toList := by
  rw [containsText, decide_eq_true_iff, modelNeedle_toList]

/-- An entry does not begin in the fixed parts of the block. -/
theorem noStart_of_tails {lead : List Char}
    (h : lead.tails.all fun s =>
      s.isEmpty || (!needleOpen.isPrefixOf s && !s.isPrefixOf needleOpen)) :
    Occurrence.NoStart needleOpen lead := by
  intro s hs hnil
  have hall := List.all_eq_true.mp h s ((List.mem_tails s lead).mpr hs)
  have hne : s.isEmpty = false := by simpa using hnil
  rw [hne, Bool.false_or, Bool.and_eq_true, Bool.not_eq_true', Bool.not_eq_true'] at hall
  constructor
  · intro hp
    rw [List.isPrefixOf_iff_prefix.mpr hp] at hall
    exact absurd hall.1 (by simp)
  · intro hp
    rw [List.isPrefixOf_iff_prefix.mpr hp] at hall
    exact absurd hall.2 (by simp)

/-- An entry of an id without line breaks has none. -/
theorem newline_notMem_needle {id : List Char} (hid : '\n' ∉ id) :
    '\n' ∉ needleOpen ++ (id ++ ['"']) := by
  have hopen : '\n' ∉ needleOpen := by decide
  simp [hopen, hid]

/-- What stands between quotes and is followed by the rest of the block. -/
theorem infix_quoted_iff {id lead value rest : List Char} (hid : '\n' ∉ id)
    (hlead : Occurrence.NoStart needleOpen lead) :
    needleOpen ++ (id ++ ['"']) <:+: lead ++ (value ++ (closeLine ++ rest)) ↔
      needleOpen ++ (id ++ ['"']) <:+: value ++ ['"'] ∨
        needleOpen ++ (id ++ ['"']) <:+: rest := by
  have hsplit : value ++ (closeLine ++ rest) = (value ++ ['"']) ++ '\n' :: rest := by
    simp [closeLine]
  rw [Occurrence.infix_append_iff_of_noStart hlead, hsplit]
  exact Occurrence.infix_append_cons_iff (newline_notMem_needle hid)

/-- **Where an entry is found** in a text with the block of a model. -/
theorem infix_block_iff {id : List Char} (hid : '\n' ∉ id) (text path desc : List Char) :
    needleOpen ++ (id ++ ['"']) <:+: text ++ '\n' :: modelLines id path desc ↔
      needleOpen ++ (id ++ ['"']) <:+: text ∨ needleOpen ++ (id ++ ['"']) <:+: path ++ ['"'] ∨
        needleOpen ++ (id ++ ['"']) <:+: desc ++ ['"'] := by
  have hid' : Occurrence.NoStart needleOpen (modelsHeader ++ idOpen) :=
    noStart_of_tails (by decide)
  have hmodel : Occurrence.NoStart needleOpen modelOpen := noStart_of_tails (by decide)
  have hdesc : Occurrence.NoStart needleOpen (autostartLine ++ descriptionOpen) :=
    noStart_of_tails (by decide)
  -- The line of the id is too short to hold an entry behind its first quote.
  have hshort : ¬ needleOpen ++ (id ++ ['"']) <:+: id ++ ['"'] := by
    intro h
    have hlen := h.length_le
    have hopen : needleOpen.length = 6 := by decide
    rw [List.length_append, hopen] at hlen
    omega
  have hnil : ¬ needleOpen ++ (id ++ ['"']) <:+: [] := by
    intro h
    have hlen := h.length_le
    simp at hlen
  rw [Occurrence.infix_append_cons_iff (newline_notMem_needle hid), modelLines,
    ← List.append_assoc modelsHeader, infix_quoted_iff hid hid', infix_quoted_iff hid hmodel,
    ← List.append_assoc autostartLine, infix_quoted_iff hid hdesc]
  constructor
  · rintro (h | h | h | h | h)
    · exact .inl h
    · exact absurd h hshort
    · exact .inr (.inl h)
    · exact .inr (.inr h)
    · exact absurd h hnil
  · rintro (h | h | h)
    · exact .inl h
    · exact .inr (.inr (.inl h))
    · exact .inr (.inr (.inr (.inl h)))

/-- The condition is that the search finds something in the text with the block. -/
theorem entrySeen_iff (text id path desc : String) :
    EntrySeen text id path desc ↔
      containsText (text ++ modelBlock id path desc) (modelNeedle id) = true := by
  unfold EntrySeen
  split
  · rfl
  · next hid =>
    have hquote : "\"".toList = ['"'] := by decide
    rw [containsText_iff, containsText_iff, containsText_iff, containsText_iff,
      String.toList_append, String.toList_append, String.toList_append, hquote,
      modelBlock_toList]
    exact (infix_block_iff hid text.toList path.toList desc.toList).symm

/-! ## One call -/

/-- The search finds in a longer text what it finds in a beginning of it. -/
theorem containsText_append {text needle : String} (h : containsText text needle = true)
    (more : String) : containsText (text ++ more) needle = true := by
  rw [containsText, decide_eq_true_iff] at h ⊢
  rw [String.toList_append]
  exact h.trans (List.prefix_append _ _).isInfix

theorem containsText_empty (id : String) : containsText "" (modelNeedle id) = false := by
  rw [containsText, modelNeedle_toList]
  simp

/-- An entry that is there is still seen with a block behind it. -/
theorem entrySeen_of_contains {text id : String} (h : containsText text (modelNeedle id) = true)
    (path desc : String) : EntrySeen text id path desc :=
  (entrySeen_iff text id path desc).mpr (containsText_append h _)

section Call

variable {a : Access} {bytes : List UInt8} {id : String} (path desc : String)

/-- The search succeeds just if it reads a text with an entry. -/
theorem contains_existingText_iff :
    containsText (existingText a (some bytes)) (modelNeedle id) = true ↔ a.Finds bytes id := by
  unfold existingText Access.Finds
  cases a.reads with
  | false => simp [containsText_empty]
  | true =>
    cases htext : fromUtf8 bytes with
    | none => simp [htext, containsText_empty]
    | some text => simp [htext]

theorem persistModelAt_of_finds (h : a.Finds bytes id) :
    persistModelAt a (some bytes) id path desc = (.ok (), some bytes) :=
  if_pos (contains_existingText_iff.mpr h)

theorem persistModelAt_of_written (h : ¬ a.Finds bytes id) (ha : a.append = .written) :
    persistModelAt a (some bytes) id path desc =
      (.ok (), some (bytes ++ utf8 (modelBlock id path desc).toList)) := by
  unfold persistModelAt
  rw [if_neg fun hc => h (contains_existingText_iff.mp hc), ha]

theorem persistModelAt_of_failed (h : ¬ a.Finds bytes id) {n : ℕ} {e : String}
    (ha : a.append = .failed n e) : (persistModelAt a (some bytes) id path desc).1 ≠ .ok () := by
  unfold persistModelAt
  rw [if_neg fun hc => h (contains_existingText_iff.mp hc), ha]
  simp

/-- Nothing is appended to a missing file. -/
theorem persistModelAt_none : (persistModelAt a none id path desc).1 ≠ .ok () := by
  have hempty : containsText (existingText a none) (modelNeedle id) = false := by
    cases hreads : a.reads <;> simp [existingText, hreads, containsText_empty]
  unfold persistModelAt
  rw [hempty]
  simp

/-- The block begins with a line break. -/
theorem utf8_modelBlock (id path desc : String) : ∃ cs,
    (modelBlock id path desc).toList = '\n' :: cs := ⟨_, modelBlock_toList id path desc⟩

/-- A block is not empty. -/
theorem append_block_ne : bytes ++ utf8 (modelBlock id path desc).toList ≠ bytes := by
  obtain ⟨cs, hblock⟩ := utf8_modelBlock id path desc
  intro h
  rw [List.append_right_eq_self, hblock, utf8_eq_nil_iff] at h
  exact absurd h (by simp)

/-- **A call leaves the file alone just if the search succeeds.** -/
theorem persistModelAt_eq_self_iff :
    persistModelAt a (some bytes) id path desc = (.ok (), some bytes) ↔ a.Finds bytes id := by
  constructor
  · intro h
    by_contra hfinds
    cases ha : a.append with
    | written =>
      rw [persistModelAt_of_written path desc hfinds ha] at h
      exact append_block_ne path desc (Option.some.inj (congrArg Prod.snd h))
    | failed n e =>
      exact persistModelAt_of_failed path desc hfinds ha (congrArg Prod.fst h)
  · exact persistModelAt_of_finds path desc

/-- What is found behind an appended block. -/
theorem finds_appended_iff :
    a.Finds (bytes ++ utf8 (modelBlock id path desc).toList) id ↔
      a.reads = true ∧ ∃ text, fromUtf8 bytes = some text ∧ EntrySeen text id path desc := by
  obtain ⟨cs, hblock⟩ := utf8_modelBlock id path desc
  have hof : String.ofList ('\n' :: cs) = modelBlock id path desc := by
    rw [← hblock, String.ofList_toList]
  unfold Access.Finds
  simp only [entrySeen_iff, hblock, fromUtf8_append_iff (d := '\n') (by decide), hof]
  constructor
  · rintro ⟨hreads, _, ⟨text, htext, rfl⟩, hc⟩
    exact ⟨hreads, text, htext, hc⟩
  · rintro ⟨hreads, text, htext, hc⟩
    exact ⟨hreads, _, ⟨text, htext, rfl⟩, hc⟩

end Call

/-! ## Results -/

/-- **A model is appended once just if its entry is seen again.** -/
theorem appended_once_iff (first second : Access) (file : Option (List UInt8))
    (id path desc : String) :
    AppendedOnce first second file id path desc ↔
      ∀ bytes ∈ file, SeenAgain first second bytes id path desc := by
  -- A call that returned leaves some bytes, and the next one leaves them if it finds an entry.
  have hafter : ∀ {bytes}, (persistModelAt first file id path desc).2 = some bytes →
      second.Finds bytes id → AppendedOnce first second file id path desc := by
    intro bytes hbytes hfinds
    refine ⟨fun _ path' desc' => ?_, fun _ path' desc' hwrites => ?_⟩
    · rw [hbytes]
      exact persistModelAt_of_finds path' desc' hfinds
    · rw [hbytes] at hwrites
      unfold WritesEntry at hwrites
      rw [persistModelAt_of_finds path' desc' hfinds] at hwrites
      exact hwrites.2 rfl
  have herror : (persistModelAt first file id path desc).1 ≠ .ok () →
      AppendedOnce first second file id path desc :=
    fun hne => ⟨fun hok => absurd hok hne, fun hwrites => absurd hwrites.1 hne⟩
  cases file with
  | none => exact ⟨fun _ _ hmem => absurd hmem (by simp), fun _ => herror (persistModelAt_none _ _)⟩
  | some bytes =>
    have hall : (∀ b ∈ some bytes, SeenAgain first second b id path desc) ↔
        SeenAgain first second bytes id path desc := by simp
    rw [hall]
    by_cases hfound : first.Finds bytes id
    · have hfirst := persistModelAt_of_finds path desc hfound
      obtain ⟨hreads, text, htext, hc⟩ := hfound
      constructor
      · intro h _
        have hagain := h.again (congrArg Prod.fst hfirst) path desc
        rw [hfirst, persistModelAt_eq_self_iff] at hagain
        exact ⟨hagain.1, text, htext, entrySeen_of_contains hc path desc⟩
      · intro h
        have hagain := (h (.inl ⟨hreads, text, htext, hc⟩)).1
        exact hafter (congrArg Prod.snd hfirst) ⟨hagain, text, htext, hc⟩
    · cases happend : first.append with
      | written =>
        have hfirst := persistModelAt_of_written path desc hfound happend
        constructor
        · intro h _
          have hagain := h.again (congrArg Prod.fst hfirst) path desc
          rw [hfirst, persistModelAt_eq_self_iff, finds_appended_iff] at hagain
          exact hagain
        · intro h
          exact hafter (congrArg Prod.snd hfirst)
            ((finds_appended_iff path desc).mpr (h (.inr happend)))
      | failed n e =>
        have hne := persistModelAt_of_failed path desc hfound happend
        refine ⟨fun _ hok => ?_, fun _ => herror hne⟩
        rcases hok with hok | hok
        · exact absurd hok hfound
        · exact absurd (happend.symm.trans hok) (by simp)

/-- A file that can be read and written. -/
def openAccess : Access := ⟨true, .written⟩

/-- **On a text that can be read and written** the call is `persistModel`. -/
theorem persistModelAt_openAccess (text id path desc : String) :
    persistModelAt openAccess (some (utf8 text.toList)) id path desc =
      (.ok (), some (utf8 (persistModel text id path desc).toList)) := by
  have htext : fromUtf8 (utf8 text.toList) = some text := fromUtf8_eq_some_iff.mpr rfl
  unfold persistModelAt persistModel existingText openAccess
  simp only [if_true, Option.bind_some, htext, Option.getD_some]
  split
  · rfl
  · rw [String.toList_append, utf8_append]

/-- **The second call appends again**, also to an empty file. -/
theorem second_call_appends :
    (persistModelAt openAccess (some []) "m" "/m.gguf" "hf: o/m").1 = .ok () ∧
      ¬ AppendedOnce openAccess openAccess (some []) "m" "/m.gguf" "hf: o/m" := by
  have hfirst := persistModelAt_openAccess "" "m" "/m.gguf" "hf: o/m"
  refine ⟨congrArg Prod.fst hfirst, fun h => ?_⟩
  have hagain := h.again (congrArg Prod.fst hfirst) "/m.gguf" "hf: o/m"
  have hblock : (persistModelAt openAccess (some []) "m" "/m.gguf" "hf: o/m").2 =
      some (utf8 (persistModel "" "m" "/m.gguf" "hf: o/m").toList) := congrArg Prod.snd hfirst
  rw [hblock, persistModelAt_eq_self_iff] at hagain
  obtain ⟨-, text, htext, hc⟩ := hagain
  obtain rfl := Option.some.inj (htext.symm.trans (fromUtf8_eq_some_iff.mpr rfl))
  exact absurd hc (by decide +kernel)

end LlmCtl
