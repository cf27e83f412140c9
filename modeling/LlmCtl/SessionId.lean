/-
# Session ids (`store.rs`, `proxy.rs`)

A client may name its session in a header, or in the hint that it posted earlier.  Both
are untrusted text: `resolve_session` trims the name, keeps it when it is a short word over
a small alphabet, and makes up an id otherwise.

A header value is modelled by its text; `to_str` reads it only when all of it is visible
ASCII.
-/
import LlmCtl.JsonValue
import Mathlib.Data.Nat.Notation

namespace LlmCtl

/-! ## Text -/

/-- The characters with the Unicode property `White_Space`, which `str::trim` takes off. -/
def isWhiteSpace (c : Char) : Bool :=
  (0x09 ≤ c.toNat && c.toNat ≤ 0x0D) || (0x2000 ≤ c.toNat && c.toNat ≤ 0x200A) ||
    [0x20, 0x85, 0xA0, 0x1680, 0x2028, 0x2029, 0x202F, 0x205F, 0x3000].contains c.toNat

/-- `str::trim`. -/
def trim (s : String) : String :=
  String.ofList ((s.toList.dropWhile isWhiteSpace).reverse.dropWhile isWhiteSpace).reverse

/-- `str::len`: the length in bytes. -/
def byteLen (s : String) : ℕ := (s.toList.map Char.utf8Size).sum

/-- `HeaderValue::to_str`: visible ASCII and tabs only. -/
def headerText (value : String) : Option String :=
  if value.toList.all fun c => (32 ≤ c.toNat && c.toNat < 127) || c == '\t' then some value
  else none

/-- A text has at least as many bytes as characters. -/
theorem length_le_byteLen (s : String) : s.toList.length ≤ byteLen s := by
  unfold byteLen
  induction s.toList with
  | nil => exact Nat.le_refl 0
  | cons c cs ih =>
    have hc : 0 < c.utf8Size := Char.utf8Size_pos c
    simp only [List.length_cons, List.map_cons, List.sum_cons]
    omega

/-! ## Which ids are accepted -/

/-- The characters of a session id. -/
def isIdChar (c : Char) : Bool := c.isAlphanum || c == '-' || c == '_'

/-- `valid_session_id`. -/
def validSessionId (s : String) : Bool :=
  s != "" && decide (byteLen s ≤ 64) && s.toList.all isIdChar

/-- What a session id looks like: 1 to 64 characters from `[A-Za-z0-9_-]`. -/
def IsSessionId (s : String) : Prop :=
  1 ≤ s.toList.length ∧ s.toList.length ≤ 64 ∧
    ∀ c ∈ s.toList, ('A' ≤ c ∧ c ≤ 'Z') ∨ ('a' ≤ c ∧ c ≤ 'z') ∨ ('0' ≤ c ∧ c ≤ '9') ∨
      c = '_' ∨ c = '-'

theorem isAlphanum_iff (c : Char) : c.isAlphanum = true ↔
    ('A' ≤ c ∧ c ≤ 'Z') ∨ ('a' ≤ c ∧ c ≤ 'z') ∨ ('0' ≤ c ∧ c ≤ '9') := by
  show (decide ('A' ≤ c ∧ c ≤ 'Z') || (decide ('a' ≤ c) && decide (c ≤ 'z')) ||
    (decide ('0' ≤ c) && decide (c ≤ '9'))) = true ↔ _
  simp only [Bool.or_eq_true, Bool.and_eq_true, decide_eq_true_eq, or_assoc]

theorem isIdChar_iff (c : Char) : isIdChar c = true ↔
    ('A' ≤ c ∧ c ≤ 'Z') ∨ ('a' ≤ c ∧ c ≤ 'z') ∨ ('0' ≤ c ∧ c ≤ '9') ∨ c = '_' ∨ c = '-' := by
  rw [isIdChar, Bool.or_eq_true, Bool.or_eq_true, isAlphanum_iff, beq_iff_eq, beq_iff_eq]
  constructor
  · rintro (((h | h | h) | h) | h)
    · exact .inl h
    · exact .inr (.inl h)
    · exact .inr (.inr (.inl h))
    · exact .inr (.inr (.inr (.inr h)))
    · exact .inr (.inr (.inr (.inl h)))
  · rintro (h | h | h | h | h)
    · exact .inl (.inl (.inl h))
    · exact .inl (.inl (.inr (.inl h)))
    · exact .inl (.inl (.inr (.inr h)))
    · exact .inr h
    · exact .inl (.inr h)

/-- An accepted id is a session id. -/
theorem isSessionId_of_valid {s : String} (h : validSessionId s = true) : IsSessionId s := by
  simp only [validSessionId, Bool.and_eq_true, bne_iff_ne, ne_eq, decide_eq_true_eq,
    List.all_eq_true] at h
  obtain ⟨⟨hne, hlen⟩, hall⟩ := h
  refine ⟨?_, (length_le_byteLen s).trans hlen, fun c hc => (isIdChar_iff c).mp (hall c hc)⟩
  by_contra hlt
  have hnil : s.toList = [] := List.length_eq_zero_iff.mp (by omega)
  exact hne (by rw [← String.ofList_toList (s := s), hnil])

/-! ## Generated ids -/

/-- `gen_session_id`: a random word in at least twelve hexadecimal digits. -/
def genSessionId (random : UInt64) : String :=
  let digits := Nat.toDigits 16 random.toNat
  String.ofList (List.replicate (12 - digits.length) '0' ++ digits)

/-- The digits of a number are digits. -/
theorem mem_toDigits {b n : ℕ} {c : Char} (hb : 1 < b) (h : c ∈ Nat.toDigits b n) :
    ∃ d, d < b ∧ c = d.digitChar := by
  induction n using Nat.strongRecOn with
  | ind n ih =>
    rw [Nat.toDigits_eq_if hb] at h
    split at h
    · next hn => exact ⟨n, hn, List.mem_singleton.mp h⟩
    · next hn =>
      rcases List.mem_append.mp h with h | h
      · exact ih (n / b) (Nat.div_lt_self (by omega) hb) h
      · exact ⟨n % b, Nat.mod_lt _ (by omega), List.mem_singleton.mp h⟩

/-- A hexadecimal digit may stand in a session id. -/
theorem isIdChar_digitChar {d : ℕ} (h : d < 16) : isIdChar d.digitChar = true := by
  have hall : ∀ d : Fin 16, isIdChar (d : ℕ).digitChar = true := by decide
  exact hall ⟨d, h⟩

/-- **A generated id is a session id**, whatever was drawn. -/
theorem isSessionId_gen (random : UInt64) : IsSessionId (genSessionId random) := by
  have hpos : 0 < (Nat.toDigits 16 random.toNat).length := Nat.length_toDigits_pos
  have hle : (Nat.toDigits 16 random.toNat).length ≤ 16 :=
    (Nat.length_toDigits_le_iff (by omega) (by omega)).mpr random.toNat_lt
  have hlist : (genSessionId random).toList
      = List.replicate (12 - (Nat.toDigits 16 random.toNat).length) '0'
        ++ Nat.toDigits 16 random.toNat := String.toList_ofList
  refine ⟨?_, ?_, fun c hc => (isIdChar_iff c).mp ?_⟩
  · rw [hlist, List.length_append]
    omega
  · rw [hlist, List.length_append, List.length_replicate]
    omega
  · rw [hlist] at hc
    rcases List.mem_append.mp hc with hc | hc
    · rw [List.eq_of_mem_replicate hc]
      decide
    · obtain ⟨d, hd, rfl⟩ := mem_toDigits (by omega) hc
      exact isIdChar_digitChar hd

/-! ## The id of a completion -/

/-- The id that a client's text stands for: trimmed, when it is then accepted. -/
def clientSession (text : String) : Option String :=
  if validSessionId (trim text) then some (trim text) else none

/-- `resolve_session`: the id under which the session is stored. -/
def resolvedId (clientId : Option String) (random : UInt64) : String :=
  (clientId.bind clientSession).getD (genSessionId random)

/-- Whatever the client sends, the id is a session id. -/
theorem isSessionId_resolved (clientId : Option String) (random : UInt64) :
    IsSessionId (resolvedId clientId random) := by
  unfold resolvedId
  cases h : clientId.bind clientSession with
  | none => exact isSessionId_gen random
  | some id =>
    obtain ⟨text, -, htext⟩ := Option.bind_eq_some_iff.mp h
    unfold clientSession at htext
    split at htext
    · next hvalid =>
      rw [← Option.some.inj htext]
      exact isSessionId_of_valid hvalid
    · exact absurd htext (by simp)

/-! ## The key of the advisory lock -/

/-- `session_lock_key`: FNV-1a over the bytes of the id, masked to `i64::MAX`. -/
def sessionLockKey (sid : String) : ℤ :=
  let h := (sid.toList.flatMap String.utf8EncodeChar).foldl
    (fun h b => (h ^^^ b.toUInt64) * 0x100000001b3) (0xcbf29ce484222325 : UInt64)
  ((h &&& 0x7fffffffffffffff).toNat : ℤ)

end LlmCtl
