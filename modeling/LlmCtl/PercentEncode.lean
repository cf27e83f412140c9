/-
# Percent encoding

The inverse of percent decoding: a byte that is kept stands for itself, and every other one for
`%` and two hexadecimal digits in upper case.

* `decode_encode`: what is encoded is decoded, as long as `%` is not kept;
* `mem_encode`: an encoded string has kept bytes, `%` and digits only;
* `encode_encode`: two codes, one after the other, are one code.
-/
import LlmCtl.PercentDecode

namespace PercentDecode

/-- The digit of a value below sixteen. -/
def hexDigit (n : UInt8) : UInt8 := if n < 10 then 48 + n else 55 + n

/-- The escape of a byte. -/
def escapeOf (b : UInt8) : List UInt8 := [percent, hexDigit (b / 16), hexDigit (b % 16)]

variable (keep : UInt8 → Bool)

/-- A byte in an encoded string. -/
def encodeByte (b : UInt8) : List UInt8 := if keep b then [b] else escapeOf b

/-- Percent encoding. -/
def encode (s : List UInt8) : List UInt8 := s.flatMap (encodeByte keep)

/-- A statement about all bytes can be checked. -/
theorem forall_byte {P : UInt8 → Prop} (h : ∀ n < 256, P (UInt8.ofNat n)) (b : UInt8) : P b := by
  have hb := h b.toNat b.toNat_lt
  rwa [UInt8.ofNat_toNat] at hb

/-- The escape of a byte stands for it. -/
theorem escape?_escapeOf (b : UInt8) :
    escape? percent (hexDigit (b / 16)) (hexDigit (b % 16)) = some b :=
  forall_byte (P := fun b => escape? percent (hexDigit (b / 16)) (hexDigit (b % 16)) = some b)
    (by decide +kernel) b

/-- The digits of an escape are digits. -/
theorem hexValue_hexDigit (b : UInt8) :
    (hexValue (hexDigit (b / 16))).isSome ∧ (hexValue (hexDigit (b % 16))).isSome :=
  forall_byte (P := fun b => (hexValue (hexDigit (b / 16))).isSome ∧
    (hexValue (hexDigit (b % 16))).isSome) (by decide +kernel) b

/-- A byte that opens no escape stands for itself. -/
theorem decode_cons_of_ne {b : UInt8} (hb : b ≠ percent) (s : List UInt8) :
    decode (b :: s) = b :: decode s := by
  unfold decode
  match s with
  | [] => rfl
  | [h] => rfl
  | h :: l :: rest => simp [decodeMarked, escape?_of_ne h l hb]

variable {keep}

theorem decode_encodeByte (hkeep : keep percent = false) (b : UInt8) (s : List UInt8) :
    decode (encodeByte keep b ++ s) = b :: decode s := by
  unfold encodeByte
  split
  · next hb =>
    refine decode_cons_of_ne ?_ s
    rintro rfl
    exact absurd (hkeep.symm.trans hb) Bool.false_ne_true
  · simp [escapeOf, decode, decodeMarked, escape?_escapeOf]

/-- **What is encoded is decoded.** -/
theorem decode_encode (hkeep : keep percent = false) (s : List UInt8) :
    decode (encode keep s) = s := by
  induction s with
  | nil => rfl
  | cons b s ih =>
    rw [encode, List.flatMap_cons, decode_encodeByte hkeep]
    exact congrArg (b :: ·) ih

/-- The bytes of an encoded string. -/
theorem mem_encode {b : UInt8} {s : List UInt8} (h : b ∈ encode keep s) :
    keep b = true ∨ b = percent ∨ (hexValue b).isSome = true := by
  obtain ⟨c, -, hb⟩ := List.mem_flatMap.mp h
  unfold encodeByte at hb
  split at hb
  · next hc => exact .inl (List.mem_singleton.mp hb ▸ hc)
  · simp only [escapeOf, List.mem_cons, List.not_mem_nil, or_false] at hb
    rcases hb with rfl | rfl | rfl
    · exact .inr (.inl rfl)
    · exact .inr (.inr (hexValue_hexDigit c).1)
    · exact .inr (.inr (hexValue_hexDigit c).2)

/-- Kept bytes stand as they are. -/
theorem encode_of_keep {s : List UInt8} (h : ∀ b ∈ s, keep b = true) : encode keep s = s := by
  induction s with
  | nil => rfl
  | cons b s ih =>
    have hrest := ih fun x hx => h x (List.mem_cons_of_mem b hx)
    rw [encode, List.flatMap_cons, encodeByte, if_pos (h b List.mem_cons_self)]
    exact congrArg (b :: ·) hrest

/-- **Encoding what is encoded**: the second code keeps the escapes of the first one. -/
theorem encode_encode {outer : UInt8 → Bool} (hpercent : outer percent = true)
    (hdigit : ∀ b, (hexValue b).isSome = true → outer b = true) (s : List UInt8) :
    encode outer (encode keep s) = encode (fun b => keep b && outer b) s := by
  have hbyte (b : UInt8) :
      encode outer (encodeByte keep b) = encodeByte (fun b => keep b && outer b) b := by
    show encode outer (if keep b then [b] else escapeOf b) =
      if keep b && outer b then [b] else escapeOf b
    cases hb : keep b with
    | true =>
      simp only [if_true, Bool.true_and]
      exact List.append_nil _
    | false =>
      have hescape : ∀ c ∈ escapeOf b, outer c = true := by
        obtain ⟨hhigh, hlow⟩ := hexValue_hexDigit b
        intro c hc
        simp only [escapeOf, List.mem_cons, List.not_mem_nil, or_false] at hc
        rcases hc with rfl | rfl | rfl
        · exact hpercent
        · exact hdigit _ hhigh
        · exact hdigit _ hlow
      simp only [Bool.false_and, Bool.false_eq_true, if_false]
      exact encode_of_keep hescape
  induction s with
  | nil => rfl
  | cons b s ih =>
    have hcons (f : UInt8 → Bool) : encode f (b :: s) = encodeByte f b ++ encode f s := rfl
    rw [hcons, hcons, ← ih, ← hbyte]
    exact List.flatMap_append

end PercentDecode
