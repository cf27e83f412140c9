/-
# Texts as bytes

The bytes of a text in UTF-8.  An ASCII character is one byte, and no other character has a byte
below 128; so an ASCII byte stands in the bytes just where its character stands in the text.
Reading the bytes of a text, also lossily, gives the text back; and a text that is appended to a
file is read after what was there before, if that was a text.
-/
import LlmCtl.StreamCollector
import Mathlib.Data.List.TakeWhile

namespace LlmCtl

/-- The bytes of characters in UTF-8. -/
def utf8 (cs : List Char) : List UInt8 := cs.flatMap String.utf8EncodeChar

@[simp] theorem utf8_nil : utf8 [] = [] := rfl

@[simp] theorem utf8_append (cs ds : List Char) : utf8 (cs ++ ds) = utf8 cs ++ utf8 ds :=
  List.flatMap_append

theorem utf8_cons (c : Char) (cs : List Char) :
    utf8 (c :: cs) = String.utf8EncodeChar c ++ utf8 cs := rfl

theorem utf8_eq_nil_iff {cs : List Char} : utf8 cs = [] ↔ cs = [] := by
  cases cs with
  | nil => simp
  | cons c cs => simp [utf8_cons, String.utf8EncodeChar_ne_nil]

/-! ## ASCII -/

theorem utf8EncodeChar_ascii {c : Char} (h : c.toNat < 128) :
    String.utf8EncodeChar c = [UInt8.ofNat c.toNat] := by
  have hval : c.val.toNat = c.toNat := rfl
  unfold String.utf8EncodeChar
  simp only [hval]
  rw [if_pos (by omega)]

theorem toNat_ofNat_byte {n : ℕ} (h : n < 256) : (UInt8.ofNat n).toNat = n := by
  rw [UInt8.toNat_ofNat']
  omega

/-- The bytes of the other characters are not below 128. -/
theorem high_of_mem {c : Char} (h : 128 ≤ c.toNat) {b : UInt8}
    (hb : b ∈ String.utf8EncodeChar c) : 128 ≤ b.toNat := by
  have hval : c.val.toNat = c.toNat := rfl
  unfold String.utf8EncodeChar at hb
  simp only [hval] at hb
  rw [if_neg (by omega)] at hb
  split at hb
  · simp only [List.mem_cons, List.not_mem_nil, or_false] at hb
    rcases hb with rfl | rfl
    all_goals rw [toNat_ofNat_byte (by omega)]; omega
  · split at hb
    · simp only [List.mem_cons, List.not_mem_nil, or_false] at hb
      rcases hb with rfl | rfl | rfl
      all_goals rw [toNat_ofNat_byte (by omega)]; omega
    · simp only [List.mem_cons, List.not_mem_nil, or_false] at hb
      rcases hb with rfl | rfl | rfl | rfl
      all_goals rw [toNat_ofNat_byte (by omega)]; omega

/-- **An ASCII byte stands for its character**, wherever it is. -/
theorem mem_utf8_iff {d : Char} (hd : d.toNat < 128) {cs : List Char} :
    UInt8.ofNat d.toNat ∈ utf8 cs ↔ d ∈ cs := by
  constructor
  · intro h
    obtain ⟨c, hc, hb⟩ := List.mem_flatMap.mp h
    by_cases hascii : c.toNat < 128
    · rw [utf8EncodeChar_ascii hascii, List.mem_singleton] at hb
      have hsame := congrArg UInt8.toNat hb
      rw [toNat_ofNat_byte (by omega), toNat_ofNat_byte (by omega)] at hsame
      rwa [Char.toNat_inj.mp hsame]
    · have hhigh := high_of_mem (Nat.le_of_not_lt hascii) hb
      rw [toNat_ofNat_byte (by omega)] at hhigh
      omega
  · intro h
    refine List.mem_flatMap.mpr ⟨d, h, ?_⟩
    rw [utf8EncodeChar_ascii hd]
    exact List.mem_singleton_self _

/-! ## Reading -/

theorem lossyLead_ascii {n : ℕ} (h : n < 128) :
    lossyLead (UInt8.ofNat n) = ([Char.ofNat n], none) := by
  have hb := toNat_ofNat_byte (n := n) (by omega)
  rw [lossyLead, if_pos (by rw [UInt8.lt_iff_toNat_lt, hb]; exact h), hb]

theorem lossyLead_two {n : ℕ} (hlow : 0xC2 ≤ n) (hhigh : n ≤ 0xDF) :
    lossyLead (UInt8.ofNat n) = ([], some ⟨1, 0x80, 0xBF, n % 32⟩) := by
  have hb := toNat_ofNat_byte (n := n) (by omega)
  simp only [lossyLead, UInt8.lt_iff_toNat_lt, UInt8.le_iff_toNat_le, hb, UInt8.reduceToNat]
  rw [if_neg (by omega), if_pos ⟨hlow, hhigh⟩]

theorem lossyLead_three {n : ℕ} (hlow : 0xE0 ≤ n) (hhigh : n ≤ 0xEF) :
    lossyLead (UInt8.ofNat n) = ([], some ⟨2, if n = 0xE0 then 0xA0 else 0x80,
      if n = 0xED then 0x9F else 0xBF, n % 16⟩) := by
  have hb := toNat_ofNat_byte (n := n) (by omega)
  simp only [lossyLead, UInt8.lt_iff_toNat_lt, UInt8.le_iff_toNat_le, ← UInt8.toNat_inj, hb,
    UInt8.reduceToNat]
  rw [if_neg (by omega), if_neg (by omega)]
  by_cases he0 : n = 0xE0
  · subst he0
    rfl
  · by_cases hed : n = 0xED
    · subst hed
      rfl
    · rw [if_neg he0, if_neg hed, if_pos (by omega), if_neg he0, if_neg hed]

theorem lossyLead_four {n : ℕ} (hlow : 0xF0 ≤ n) (hhigh : n ≤ 0xF4) :
    lossyLead (UInt8.ofNat n) = ([], some ⟨3, if n = 0xF0 then 0x90 else 0x80,
      if n = 0xF4 then 0x8F else 0xBF, n % 8⟩) := by
  obtain rfl | rfl | rfl | rfl | rfl :
      n = 0xF0 ∨ n = 0xF1 ∨ n = 0xF2 ∨ n = 0xF3 ∨ n = 0xF4 := by omega
  all_goals rfl

section Bytes

variable {n bits : ℕ} {low high : UInt8} (hn : n < 256) (hlow : low.toNat ≤ n)
  (hhigh : n ≤ high.toNat)

include hn hlow hhigh

/-- A byte that ends a character. -/
theorem lossyChars_last (rest : List UInt8) :
    lossyChars (some ⟨1, low, high, bits⟩) (UInt8.ofNat n :: rest)
      = Char.ofNat (bits * 64 + n % 64) :: lossyChars none rest := by
  have hb := toNat_ofNat_byte hn
  rw [lossyChars, lossyNext,
    if_pos (by rw [UInt8.le_iff_toNat_le, UInt8.le_iff_toNat_le, hb]; exact ⟨hlow, hhigh⟩), hb]
  rfl

/-- A byte within a character. -/
theorem lossyChars_next (k : ℕ) (rest : List UInt8) :
    lossyChars (some ⟨k + 2, low, high, bits⟩) (UInt8.ofNat n :: rest)
      = lossyChars (some ⟨k + 1, 0x80, 0xBF, bits * 64 + n % 64⟩) rest := by
  have hb := toNat_ofNat_byte hn
  rw [lossyChars, lossyNext,
    if_pos (by rw [UInt8.le_iff_toNat_le, UInt8.le_iff_toNat_le, hb]; exact ⟨hlow, hhigh⟩), hb]
  simp only [Nat.reduceEqDiff, if_false]
  rfl

end Bytes

/-- The bytes of a character are read as the character. -/
theorem lossyChars_utf8EncodeChar (c : Char) (rest : List UInt8) :
    lossyChars none (String.utf8EncodeChar c ++ rest) = c :: lossyChars none rest := by
  have hval : c.val.toNat = c.toNat := rfl
  have hvalid : c.toNat < 0xD800 ∨ (0xDFFF < c.toNat ∧ c.toNat < 0x110000) := c.valid
  have hback : Char.ofNat c.toNat = c := Char.ofNat_toNat c
  have h80 : (0x80 : UInt8).toNat = 128 := rfl
  have hBF : (0xBF : UInt8).toNat = 191 := rfl
  unfold String.utf8EncodeChar
  simp only [hval]
  generalize c.toNat = n at hvalid hback
  split
  · rw [List.singleton_append, lossyChars, lossyLead_ascii (by omega), hback]
    rfl
  split
  · -- two bytes
    have hbits : (n / 64 % 32 + 192) % 32 * 64 + (n % 64 + 128) % 64 = n := by omega
    rw [List.cons_append, List.singleton_append, lossyChars,
      lossyLead_two (by omega) (by omega), List.nil_append,
      lossyChars_last (by omega) (by omega) (by omega), hbits, hback]
  split
  · -- three bytes, where the first one may bound the second one
    have hbits : ((n / 4096 % 16 + 224) % 16 * 64 + (n / 64 % 64 + 128) % 64) * 64
        + (n % 64 + 128) % 64 = n := by omega
    rw [List.cons_append, List.cons_append, List.singleton_append, lossyChars,
      lossyLead_three (by omega) (by omega), List.nil_append,
      lossyChars_next (by omega) ?_ ?_, lossyChars_last (by omega) (by omega) (by omega), hbits,
      hback]
    · split
      · show 160 ≤ _
        omega
      · omega
    · split
      · show _ ≤ 159
        omega
      · omega
  · -- four bytes
    have hbits : (((n / 262144 % 8 + 240) % 8 * 64 + (n / 4096 % 64 + 128) % 64) * 64
        + (n / 64 % 64 + 128) % 64) * 64 + (n % 64 + 128) % 64 = n := by omega
    rw [List.cons_append, List.cons_append, List.cons_append, List.singleton_append, lossyChars,
      lossyLead_four (by omega) (by omega), List.nil_append, lossyChars_next (by omega) ?_ ?_,
      lossyChars_next (by omega) (by omega) (by omega),
      lossyChars_last (by omega) (by omega) (by omega), hbits, hback]
    · split
      · show 144 ≤ _
        omega
      · omega
    · split
      · show _ ≤ 143
        omega
      · omega

/-- **The bytes of a text are read as the text.** -/
theorem fromUtf8Lossy_utf8 (s : String) : fromUtf8Lossy (utf8 s.toList) = s := by
  have hchars : ∀ cs, lossyChars none (utf8 cs) = cs := by
    intro cs
    induction cs with
    | nil => rfl
    | cons c cs ih => rw [utf8_cons, lossyChars_utf8EncodeChar, ih]
  rw [fromUtf8Lossy, hchars, String.ofList_toList]

theorem utf8_injective : Function.Injective utf8 := by
  intro cs ds h
  have hread := fromUtf8Lossy_utf8 (String.ofList cs)
  rw [String.toList_ofList, h] at hread
  have hread' := fromUtf8Lossy_utf8 (String.ofList ds)
  rw [String.toList_ofList] at hread'
  exact String.ofList_injective (hread.symm.trans hread')

/-! ## Reading without loss -/

/-- `str::from_utf8`. -/
def fromUtf8 (bytes : List UInt8) : Option String := String.fromUTF8? ⟨bytes.toArray⟩

theorem utf8_toByteArray (cs : List Char) : cs.utf8Encode = ⟨(utf8 cs).toArray⟩ := by
  rw [ByteArray.ext_iff, List.utf8Encode, List.data_toByteArray]
  rfl

theorem fromUtf8_eq_some_iff {bytes : List UInt8} {s : String} :
    fromUtf8 bytes = some s ↔ bytes = utf8 s.toList := by
  have hbytes : s.toByteArray = ⟨(utf8 s.toList).toArray⟩ := by
    rw [← utf8_toByteArray, String.utf8Encode_toList]
  constructor
  · intro h
    unfold fromUtf8 String.fromUTF8? at h
    split at h
    · obtain rfl := Option.some.inj h
      exact congrArg (fun b : ByteArray => b.data.toList) hbytes
    · cases h
  · rintro rfl
    unfold fromUtf8 String.fromUTF8?
    rw [dif_pos (hbytes ▸ s.isValidUTF8)]
    congr 1
    apply String.toByteArray_inj.mp
    exact hbytes.symm

/-- An ASCII character begins a new one: what stands before it is a text of its own. -/
theorem eq_utf8_of_append_ascii {d : Char} (hd : d.toNat < 128) {ds : List Char} {m : List Char} :
    ∀ {bytes : List UInt8}, bytes ++ utf8 (d :: ds) = utf8 m → ∃ cs, bytes = utf8 cs := by
  induction m with
  | nil =>
    intro bytes h
    rw [utf8_nil, List.append_eq_nil_iff] at h
    exact ⟨[], h.1⟩
  | cons c m ih =>
    intro bytes h
    rw [utf8_cons c, List.append_eq_append_iff] at h
    rcases h with ⟨mid, hchar, hmid⟩ | ⟨mid, rfl, hrest⟩
    · cases mid with
      | nil =>
        rw [List.append_nil] at hchar
        exact ⟨[c], by rw [← hchar, utf8_cons, utf8_nil, List.append_nil]⟩
      | cons b mid =>
        rw [utf8_cons, utf8EncodeChar_ascii hd, List.singleton_append, List.cons_append] at hmid
        obtain ⟨rfl, -⟩ := List.cons_eq_cons.mp hmid
        have hmem : UInt8.ofNat d.toNat ∈ String.utf8EncodeChar c := by simp [hchar]
        have hascii : c.toNat < 128 := by
          by_contra hhigh
          have hbyte := high_of_mem (Nat.le_of_not_lt hhigh) hmem
          rw [toNat_ofNat_byte (by omega)] at hbyte
          omega
        rw [utf8EncodeChar_ascii hascii] at hchar
        have hlen := congrArg List.length hchar
        simp only [List.length_append, List.length_cons, List.length_nil] at hlen
        exact ⟨[], List.eq_nil_of_length_eq_zero (by omega)⟩
    · obtain ⟨cs, rfl⟩ := ih hrest.symm
      exact ⟨c :: cs, (utf8_cons c cs).symm⟩
/-- **What is read after an append** that begins with an ASCII character: the text from before,
and what was appended. -/
theorem fromUtf8_append_iff {d : Char} (hd : d.toNat < 128) {ds : List Char} {bytes : List UInt8}
    {s : String} : fromUtf8 (bytes ++ utf8 (d :: ds)) = some s ↔
      ∃ text, fromUtf8 bytes = some text ∧ s = text ++ String.ofList (d :: ds) := by
  constructor
  · intro h
    have hall := fromUtf8_eq_some_iff.mp h
    obtain ⟨cs, rfl⟩ := eq_utf8_of_append_ascii hd hall
    refine ⟨String.ofList cs, fromUtf8_eq_some_iff.mpr (by rw [String.toList_ofList]), ?_⟩
    rw [← utf8_append] at hall
    rw [← String.ofList_append, utf8_injective hall, String.ofList_toList]
  · rintro ⟨text, htext, rfl⟩
    rw [fromUtf8_eq_some_iff.mp htext, ← utf8_append]
    exact fromUtf8_eq_some_iff.mpr (by rw [String.toList_append, String.toList_ofList])

end LlmCtl
