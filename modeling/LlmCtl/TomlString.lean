/-
# Strings in a TOML text

What the reader makes of a text that somebody has put between two quotes.  If the text is plain
(no control character, no quote and no backslash), it becomes the value.  If it is not, the
string ends somewhere else, or an escape stands for fewer characters than it has: the value is
shorter than the raw text up to the closing quote.  No escape is written with the letter `o`,
so that this letter is never lost.
-/
import LlmCtl.TomlKeeps

namespace Toml

/-! ## Reading on -/

theorem read_append (s : State) (text rest : List Char) :
    read s (text ++ rest) = (read s text).bind fun s' => read s' rest := by
  rw [read, List.foldlM_append]
  rfl

theorem complete_append {s s' : State} {text : List Char} (h : read s text = some s')
    (rest : List Char) : complete s (text ++ rest) = complete s' rest := by
  rw [complete, read_append, h, Option.bind_some, complete]

theorem read_cons (s : State) (c : Char) (text : List Char) :
    read s (c :: text) = (step s c).bind fun s' => read s' text := rfl

/-- A complete document goes on with a line break. -/
theorem step_newline {s : State} {d : Doc} (h : finish s = some d) :
    step s '\n' = some ⟨d, .lineStart⟩ := by
  unfold finish at h
  split at h
  · cases h
  · obtain ⟨⟨d', mode⟩, hs, h⟩ := Option.bind_eq_some_iff.mp h
    cases mode with
    | lineStart =>
      cases h
      exact hs
    | _ => cases h

/-- What follows a complete document on new lines is read as if the document had just been
read line by line. -/
theorem parse_append {text : List Char} {root : Entries} (h : parse text = some root) :
    ∃ d : Doc, d.root = root ∧ ∀ rest,
      parse (text ++ '\n' :: rest) = (complete ⟨d, .lineStart⟩ rest).map Doc.root := by
  obtain ⟨d, hd, rfl⟩ := Option.map_eq_some_iff.mp h
  obtain ⟨s, hs, hfin⟩ := Option.bind_eq_some_iff.mp hd
  refine ⟨d, rfl, fun rest => ?_⟩
  rw [parse, complete, read_append, hs, Option.bind_some, read_cons, step_newline hfin,
    Option.bind_some, complete]

/-! ## Plain strings -/

/-- What a string on one line holds as it is. -/
def isPlain (c : Char) : Bool := isText c && c != '"' && c != '\\'

def Plain (cs : List Char) : Prop := ∀ c ∈ cs, isPlain c = true

instance (cs : List Char) : Decidable (Plain cs) :=
  decidable_of_iff (cs.all isPlain = true) List.all_eq_true

theorem isPlain_iff {c : Char} : isPlain c = true ↔ isText c = true ∧ c ≠ '"' ∧ c ≠ '\\' := by
  simp [isPlain, and_assoc]

theorem isPlain_of_toNat {c : Char}
    (h : 32 ≤ c.toNat ∧ c.toNat ≠ 34 ∧ c.toNat ≠ 92 ∧ c.toNat ≠ 127) : isPlain c = true := by
  rw [isPlain_iff]
  refine ⟨?_, ?_, ?_⟩
  · have hlow : decide (0x20 ≤ c.toNat) = true := decide_eq_true h.1
    have hdel : (c.toNat != 0x7F) = true := bne_iff_ne.mpr h.2.2.2
    rw [isText, hlow, hdel, Bool.and_true, Bool.or_true]
  · rintro rfl
    exact h.2.1 rfl
  · rintro rfl
    exact h.2.2.1 rfl

/-- Lower case stays plain. -/
theorem isPlain_toLower {c : Char} (h : isPlain c = true) : isPlain c.toLower = true := by
  unfold Char.toLower
  split
  · next hupper =>
    apply isPlain_of_toNat
    have hlow : 65 ≤ c.val.toNat := UInt32.le_iff_toNat_le.mp hupper.1
    have hhigh : c.val.toNat ≤ 90 := UInt32.le_iff_toNat_le.mp hupper.2
    have hadd : (c.val + ('a'.val - 'A'.val)).toNat = c.val.toNat + 32 := by
      rw [UInt32.toNat_add]
      show (c.val.toNat + 32) % 2 ^ 32 = _
      omega
    simp only [Char.toNat, hadd]
    omega
  · exact h

theorem not_isText_newline : isText '\n' = false := by decide

theorem newline_notMem_of_plain {cs : List Char} (h : Plain cs) : '\n' ∉ cs := by
  intro hn
  have htext := (isPlain_iff.mp (h _ hn)).1
  rw [not_isText_newline] at htext
  cases htext

theorem onBasic_plain (d : Doc) (u : StringUse) (buf : List Char) {c : Char}
    (h : isPlain c = true) : onBasic d u buf c = some ⟨d, .basic u (c :: buf)⟩ := by
  obtain ⟨htext, hquote, hslash⟩ := isPlain_iff.mp h
  rw [onBasic, if_neg hquote, if_neg hslash, if_pos htext]

theorem read_plain (d : Doc) (u : StringUse) {cs : List Char} (h : Plain cs) (buf : List Char) :
    read ⟨d, .basic u buf⟩ cs = some ⟨d, .basic u (cs.reverse ++ buf)⟩ := by
  induction cs generalizing buf with
  | nil => rfl
  | cons c cs ih =>
    have hc : step ⟨d, .basic u buf⟩ c = some ⟨d, .basic u (c :: buf)⟩ :=
      onBasic_plain d u buf (h c List.mem_cons_self)
    have hcs : Plain cs := fun x hx => h x (List.mem_cons_of_mem c hx)
    rw [read_cons, hc, Option.bind_some, ih hcs, List.reverse_cons, List.append_assoc,
      List.singleton_append]

/-- The end of a value outside brackets, and of its line. -/
theorem endValue_newline (d : Doc) (key : List (List Char)) (v : Value) :
    ((endValue d ⟨key, []⟩ v).bind fun s => onEnded s '\n')
      = (d.keyval key v).map fun d' => ⟨d', .lineStart⟩ := by
  rw [endValue]
  cases d.keyval key v with
  | none => rfl
  | some d' => rfl

/-- A plain text between quotes, and the end of the line. -/
theorem read_plain_value (d : Doc) (key : List (List Char)) {cs : List Char} (h : Plain cs) :
    read ⟨d, .quote ⟨key, []⟩ '"' false⟩ (cs ++ ['"', '\n'])
      = (d.keyval key (.str cs)).map fun d' => ⟨d', .lineStart⟩ := by
  rw [← endValue_newline d key (.str cs)]
  cases cs with
  | nil =>
    have hopen : read ⟨d, .quote ⟨key, []⟩ '"' false⟩ ['"', '\n']
        = (endBefore d ⟨key, []⟩ (some (.str [])) '\n').bind some := rfl
    rw [List.nil_append, hopen, Option.bind_fun_some]
    rfl
  | cons c cs =>
    have hc := h c List.mem_cons_self
    have hcs : Plain cs := fun x hx => h x (List.mem_cons_of_mem c hx)
    have hfirst : step ⟨d, .quote ⟨key, []⟩ '"' false⟩ c
        = some ⟨d, .basic (.value ⟨key, []⟩) [c]⟩ := by
      simp only [step, Bool.false_eq_true, if_false, if_neg (isPlain_iff.mp hc).2.1]
      exact onBasic_plain d _ [] hc
    have hclose : read ⟨d, .basic (.value ⟨key, []⟩) (cs.reverse ++ [c])⟩ ['"', '\n']
        = (endValue d ⟨key, []⟩ (.str (cs.reverse ++ [c]).reverse)).bind
            fun s => (step s '\n').bind some := rfl
    rw [List.cons_append, read_cons, hfirst, Option.bind_some, read_append, read_plain d _ hcs,
      Option.bind_some, hclose, List.reverse_append, List.reverse_reverse,
      List.reverse_singleton, List.singleton_append]
    unfold endValue
    cases d.keyval key (.str (c :: cs)) with
    | none => rfl
    | some d' => rfl

/-- **A plain text between quotes becomes the value of its key.** -/
theorem complete_plain_value (d : Doc) (key : List (List Char)) {cs : List Char} (h : Plain cs)
    (rest : List Char) :
    complete ⟨d, .quote ⟨key, []⟩ '"' false⟩ (cs ++ (['"', '\n'] ++ rest))
      = (d.keyval key (.str cs)).bind fun d' => complete ⟨d', .lineStart⟩ rest := by
  rw [complete, ← List.append_assoc, read_append, read_plain_value d key h]
  cases d.keyval key (.str cs) <;> rfl

/-! ## Any text between quotes -/

/-- The raw text between an opening quote and the last closing one can stand for the text `v`. -/
def Encodes (raw v : List Char) : Prop :=
  raw = v ∧ Plain v ∨ v.length < raw.length ∧ ('\n' ∉ raw ∨ raw.count 'o' ≤ v.count 'o')

/-- A string on one line: what has been read since the opening quote, and the buffer. -/
def OnLine (r buf : List Char) : Prop :=
  buf.reverse = r ∧ Plain r ∨ buf.length < r.length ∧ '\n' ∉ r

/-- A string over lines: the buffer is shorter by `k`, and no `o` is missing. -/
def OverLines (r buf : List Char) (k : ℕ) : Prop :=
  buf.length + k ≤ r.length ∧ r.count 'o' ≤ buf.count 'o'

/-- The reader is within the string value of a statement, of which it has read `r` since the
opening quote. -/
def Inside (p : Place) (r : List Char) : Mode → Prop
  | .quote p' q two => p' = p ∧ q = '"' ∧ r = if two then ['"'] else []
  | .basic (.value p') buf => p' = p ∧ OnLine r buf
  | .escape (.value p') buf | .unicode (.value p') buf _ _ =>
    p' = p ∧ buf.length < r.length ∧ '\n' ∉ r
  | .quotes p' q => p' = p ∧ q = '"' ∧ OverLines r [] 2
  | .basic (.lines p') buf | .trimReturn p' buf => p' = p ∧ OverLines r buf 2
  | .trim p' buf _ => p' = p ∧ OverLines r buf 2
  | .escape (.lines p') buf | .unicode (.lines p') buf _ _ => p' = p ∧ OverLines r buf 3
  | .stringReturn p' q buf _ => p' = p ∧ q = '"' ∧ OverLines r buf 3
  | .quotesEnd p' q buf n =>
    p' = p ∧ q = '"' ∧ OverLines r buf (n + 2) ∧ ∃ raw, r = raw ++ ['"']
  | _ => False

/-- The string has been closed within `r`, and its value added to the document `d`. -/
def Closed (d : Doc) (p : Place) (r : List Char) (s : State) : Prop :=
  ∃ raw v rest d', r = raw ++ '"' :: rest ∧ Encodes raw v ∧
    d.keyval p.key (.str v) = some d' ∧ KeepsIn d'.root s.doc.root

/-- The reader some characters after the opening quote of a string value. -/
def StringRun (d : Doc) (p : Place) (r : List Char) (s : State) : Prop :=
  s.doc = d ∧ Inside p r s.mode ∨ Closed d p r s

section StringRun

variable {d : Doc} {p : Place} {r buf : List Char} {c : Char} {s s' : State}

theorem OnLine.notMem_newline (h : OnLine r buf) : '\n' ∉ r := by
  obtain ⟨-, hplain⟩ | ⟨-, hn⟩ := h
  · exact newline_notMem_of_plain hplain
  · exact hn

theorem OnLine.length_le (h : OnLine r buf) : buf.length ≤ r.length := by
  obtain ⟨rfl, -⟩ | ⟨hlt, -⟩ := h
  · exact Nat.le_of_eq List.length_reverse.symm
  · omega

theorem OnLine.encodes (h : OnLine r buf) : Encodes r buf.reverse := by
  obtain ⟨rfl, hplain⟩ | ⟨hlt, hn⟩ := h
  · exact Or.inl ⟨rfl, hplain⟩
  · exact Or.inr ⟨by rw [List.length_reverse]; exact hlt, Or.inl hn⟩

/-- A character that stands for itself. -/
theorem OnLine.push (h : OnLine r buf) (hc : isPlain c = true) : OnLine (r ++ [c]) (c :: buf) := by
  obtain ⟨rfl, hplain⟩ | ⟨hlt, hn⟩ := h
  · refine Or.inl ⟨List.reverse_cons, ?_⟩
    intro x hx
    rw [List.mem_append, List.mem_singleton] at hx
    rcases hx with hx | rfl
    · exact hplain x hx
    · exact hc
  · refine Or.inr ⟨?_, ?_⟩
    · rw [List.length_append, List.length_cons, List.length_singleton]
      omega
    · have hcn : '\n' ≠ c := by
        rintro rfl
        exact absurd hc (by decide)
      simp [hn, hcn]

theorem notMem_newline_push (h : '\n' ∉ r) (hc : c ≠ '\n') : '\n' ∉ r ++ [c] := by
  simp [h, Ne.symm hc]

/-- A character that goes into the buffer as it is. -/
theorem OverLines.push {k : ℕ} (h : OverLines r buf k) : OverLines (r ++ [c]) (c :: buf) k := by
  obtain ⟨hlen, ho⟩ := h
  constructor
  · rw [List.length_append, List.length_cons, List.length_singleton]
    omega
  · simp only [List.count_append, List.count_cons, List.count_nil]
    omega

/-- A character that is swallowed. -/
theorem OverLines.swallow {k : ℕ} (h : OverLines r buf k) (hc : c ≠ 'o') :
    OverLines (r ++ [c]) buf (k + 1) := by
  obtain ⟨hlen, ho⟩ := h
  constructor
  · rw [List.length_append, List.length_singleton]
    omega
  · rw [List.count_append, List.count_singleton, if_neg (by simpa using hc)]
    omega

theorem OverLines.mono {k k' : ℕ} (h : OverLines r buf k) (hk : k' ≤ k) : OverLines r buf k' :=
  ⟨by have := h.1; omega, h.2⟩

/-- A character of the buffer that has been read before. -/
theorem OverLines.extra {k : ℕ} (h : OverLines r buf (k + 1)) (e : Char) :
    OverLines r (e :: buf) k := by
  obtain ⟨hlen, ho⟩ := h
  constructor
  · rw [List.length_cons]
    omega
  · rw [List.count_cons]
    omega

/-- Quotes that have turned out to be a part of the string. -/
theorem OverLines.unclosed {n : ℕ} (h : OverLines r buf (n + 2)) :
    OverLines r (List.replicate n '"' ++ buf) 2 := by
  obtain ⟨hlen, ho⟩ := h
  constructor
  · rw [List.length_append, List.length_replicate]
    omega
  · rw [List.count_append]
    omega

/-! ### The end of the string -/

theorem closed_of_endValue {raw v : List Char} (hp : p.frames = []) (hv : Encodes raw v)
    (h : endValue d p (.str v) = some s') : Closed d p (raw ++ ['"']) s' := by
  rw [endValue, hp] at h
  obtain ⟨d', hd, rfl⟩ := Option.map_eq_some_iff.mp h
  exact ⟨raw, v, [], d', rfl, hv, hd, .refl d'.root⟩

/-- A closed string stays closed. -/
theorem Closed.step (h : Closed d p r s) (hs : step s c = some s') : Closed d p (r ++ [c]) s' := by
  obtain ⟨raw, v, rest, d', rfl, hv, hd, hk⟩ := h
  refine ⟨raw, v, rest ++ [c], d', ?_, hv, hd, hk.trans (step_grows s c s' hs)⟩
  rw [List.append_assoc, List.cons_append]

theorem closed_of_endBefore {raw v : List Char} (hp : p.frames = []) (hv : Encodes raw v)
    (h : endBefore d p (some (.str v)) c = some s') : Closed d p (raw ++ ['"'] ++ [c]) s' := by
  obtain ⟨s₁, hs₁, hs⟩ := Option.bind_eq_some_iff.mp h
  obtain ⟨raw, v, rest, d', hr, hv, hd, hk⟩ := closed_of_endValue hp hv hs₁
  refine ⟨raw, v, rest ++ [c], d', ?_, hv, hd, hk.trans (onEnded_grows s₁ c s' hs)⟩
  rw [hr, List.append_assoc, List.cons_append]

/-! ### One character of the string -/

theorem onBasic_onLine (hp : p.frames = []) (h : OnLine r buf)
    (hs : onBasic d (.value p) buf c = some s') : StringRun d p (r ++ [c]) s' := by
  unfold onBasic at hs
  split at hs
  · next hquote =>
    subst hquote
    exact Or.inr (closed_of_endValue hp h.encodes hs)
  · next hquote =>
    split at hs
    · next hslash =>
      cases hs
      subst hslash
      refine Or.inl ⟨rfl, rfl, ?_, notMem_newline_push h.notMem_newline (by decide)⟩
      have hlen := h.length_le
      rw [List.length_append, List.length_singleton]
      omega
    · next hslash =>
      split at hs
      · next htext =>
        cases hs
        exact Or.inl ⟨rfl, rfl, h.push (isPlain_iff.mpr ⟨htext, hquote, hslash⟩)⟩
      · cases hs

theorem onBasic_overLines (h : OverLines r buf 2)
    (hs : onBasic d (.lines p) buf c = some s') : StringRun d p (r ++ [c]) s' := by
  unfold onBasic at hs
  split at hs
  · next hquote =>
    cases hs
    subst hquote
    exact Or.inl ⟨rfl, rfl, rfl, h.swallow (by decide), r, rfl⟩
  · split at hs
    · next hslash =>
      cases hs
      subst hslash
      exact Or.inl ⟨rfl, rfl, h.swallow (by decide)⟩
    · split at hs
      · cases hs
        exact Or.inl ⟨rfl, rfl, h.push⟩
      · simp only [onBreak] at hs
        split at hs
        · cases hs
          exact Or.inl ⟨rfl, rfl, h.push⟩
        · split at hs
          · next hreturn =>
            cases hs
            subst hreturn
            exact Or.inl ⟨rfl, rfl, rfl, h.swallow (by decide)⟩
          · cases hs

theorem escaped_ne_o {e : Char} (h : escaped c = some e) : c ≠ 'o' ∧ c ≠ '\n' := by
  constructor
  · rintro rfl
    cases h
  · rintro rfl
    cases h

theorem digit_ne_o (h : isDigitOf 16 c = true) : c ≠ 'o' ∧ c ≠ '\n' := by
  constructor
  · rintro rfl
    exact absurd h (by decide)
  · rintro rfl
    exact absurd h (by decide)

theorem onEscape_onLine (h : buf.length < r.length ∧ '\n' ∉ r)
    (hs : onEscape d (.value p) buf c = some s') : StringRun d p (r ++ [c]) s' := by
  obtain ⟨hlen, hn⟩ := h
  have hlen' : buf.length + 1 < (r ++ [c]).length := by
    rw [List.length_append, List.length_singleton]
    omega
  unfold onEscape at hs
  split at hs
  · next e he =>
    cases hs
    exact Or.inl ⟨rfl, rfl, Or.inr ⟨hlen', notMem_newline_push hn (escaped_ne_o he).2⟩⟩
  · split at hs
    · next hu =>
      cases hs
      subst hu
      exact Or.inl ⟨rfl, rfl, by omega, notMem_newline_push hn (by decide)⟩
    · split at hs
      · next hu =>
        cases hs
        subst hu
        exact Or.inl ⟨rfl, rfl, by omega, notMem_newline_push hn (by decide)⟩
      · cases hs

theorem onEscape_overLines (h : OverLines r buf 3)
    (hs : onEscape d (.lines p) buf c = some s') : StringRun d p (r ++ [c]) s' := by
  unfold onEscape at hs
  split at hs
  · next e he =>
    cases hs
    exact Or.inl ⟨rfl, rfl, ((h.swallow (escaped_ne_o he).1).extra e).mono (by omega)⟩
  · have hswallow : c ≠ 'o' → OverLines (r ++ [c]) buf 3 := fun hc =>
      (h.swallow hc).mono (by omega)
    split at hs
    · next hu =>
      cases hs
      subst hu
      exact Or.inl ⟨rfl, rfl, hswallow (by decide)⟩
    · split at hs
      · next hu =>
        cases hs
        subst hu
        exact Or.inl ⟨rfl, rfl, hswallow (by decide)⟩
      · simp only at hs
        split at hs
        · next hblank =>
          cases hs
          have hc : c ≠ 'o' := by
            rintro rfl
            exact absurd hblank (by decide)
          exact Or.inl ⟨rfl, rfl, (hswallow hc).mono (by omega)⟩
        · split at hs
          · next hbreak =>
            cases hs
            subst hbreak
            exact Or.inl ⟨rfl, rfl, (hswallow (by decide)).mono (by omega)⟩
          · split at hs
            · next hreturn =>
              cases hs
              subst hreturn
              exact Or.inl ⟨rfl, rfl, (hswallow (by decide)).mono (by omega)⟩
            · cases hs

theorem onUnicode_onLine {left n : ℕ} (h : buf.length < r.length ∧ '\n' ∉ r)
    (hs : onUnicode d (.value p) buf left n c = some s') : StringRun d p (r ++ [c]) s' := by
  obtain ⟨hlen, hn⟩ := h
  have hlen' : buf.length + 1 < (r ++ [c]).length := by
    rw [List.length_append, List.length_singleton]
    omega
  unfold onUnicode at hs
  split at hs
  · next hdigit =>
    have hn' := notMem_newline_push hn (digit_ne_o hdigit).2
    simp only at hs
    split at hs
    · split at hs
      · cases hs
        exact Or.inl ⟨rfl, rfl, Or.inr ⟨hlen', hn'⟩⟩
      · cases hs
    · cases hs
      exact Or.inl ⟨rfl, rfl, by omega, hn'⟩
  · cases hs

theorem onUnicode_overLines {left n : ℕ} (h : OverLines r buf 3)
    (hs : onUnicode d (.lines p) buf left n c = some s') : StringRun d p (r ++ [c]) s' := by
  unfold onUnicode at hs
  split at hs
  · next hdigit =>
    have hc := (digit_ne_o hdigit).1
    simp only at hs
    split at hs
    · split at hs
      · cases hs
        exact Or.inl ⟨rfl, rfl, ((h.swallow hc).extra _).mono (by omega)⟩
      · cases hs
    · cases hs
      exact Or.inl ⟨rfl, rfl, (h.swallow hc).mono (by omega)⟩
  · cases hs

/-- The value of a string over lines that has been closed. -/
theorem OverLines.encodes {raw : List Char} {n : ℕ} (h : OverLines (raw ++ ['"']) buf (n + 2))
    (hn : 3 ≤ n) : Encodes raw (List.replicate (n - 3) '"' ++ buf).reverse := by
  obtain ⟨hlen, ho⟩ := h
  rw [List.length_append, List.length_singleton] at hlen
  refine Or.inr ⟨?_, Or.inr ?_⟩
  · rw [List.length_reverse, List.length_append, List.length_replicate]
    omega
  · simp only [List.count_append, List.count_cons, List.count_nil] at ho
    rw [List.count_reverse, List.count_append]
    omega

theorem overLines_quotes : OverLines ['"', '"'] [] 2 :=
  ⟨by decide, by decide⟩

/-- **One character of a string value**: the reader stays within the string or closes it. -/
theorem step_stringRun (hp : p.frames = []) (h : StringRun d p r s) (hs : step s c = some s') :
    StringRun d p (r ++ [c]) s' := by
  rcases h with ⟨rfl, hin⟩ | hclosed
  swap
  · exact Or.inr (hclosed.step hs)
  obtain ⟨d, mode⟩ := s
  -- only the modes within a string are left
  cases mode with
  | quote p' q two =>
    obtain ⟨rfl, rfl, rfl⟩ := hin
    cases two with
    | true =>
      simp only [step, if_true] at hs
      split at hs
      · next hquote =>
        cases hs
        subst hquote
        exact Or.inl ⟨rfl, rfl, rfl, overLines_quotes⟩
      · exact Or.inr (closed_of_endBefore hp (Or.inl ⟨rfl, by decide⟩) hs)
    | false =>
      simp only [step, Bool.false_eq_true, if_false] at hs
      split at hs
      · next hquote =>
        cases hs
        subst hquote
        exact Or.inl ⟨rfl, rfl, rfl, rfl⟩
      · exact onBasic_onLine hp (Or.inl ⟨rfl, by decide⟩) hs
  | quotes p' q =>
    obtain ⟨rfl, rfl, hover⟩ := hin
    simp only [step] at hs
    split at hs
    · next hbreak =>
      cases hs
      subst hbreak
      exact Or.inl ⟨rfl, rfl, (hover.swallow (by decide)).mono (by omega)⟩
    · split at hs
      · next hreturn =>
        cases hs
        subst hreturn
        exact Or.inl ⟨rfl, rfl, rfl, hover.swallow (by decide)⟩
      · exact onBasic_overLines hover hs
  | basic u buf =>
    cases u with
    | key => exact absurd hin (by simp [Inside])
    | value p' =>
      obtain ⟨rfl, hline⟩ := hin
      exact onBasic_onLine hp hline hs
    | lines p' =>
      obtain ⟨rfl, hover⟩ := hin
      exact onBasic_overLines hover hs
  | escape u buf =>
    cases u with
    | key => exact absurd hin (by simp [Inside])
    | value p' =>
      obtain ⟨rfl, hline⟩ := hin
      exact onEscape_onLine hline hs
    | lines p' =>
      obtain ⟨rfl, hover⟩ := hin
      exact onEscape_overLines hover hs
  | unicode u buf left n =>
    cases u with
    | key => exact absurd hin (by simp [Inside])
    | value p' =>
      obtain ⟨rfl, hline⟩ := hin
      exact onUnicode_onLine hline hs
    | lines p' =>
      obtain ⟨rfl, hover⟩ := hin
      exact onUnicode_overLines hover hs
  | trim p' buf fed =>
    obtain ⟨rfl, hover⟩ := hin
    simp only [step] at hs
    split at hs
    · next hblank =>
      cases hs
      have hc : c ≠ 'o' := by
        rintro rfl
        exact absurd hblank (by decide)
      exact Or.inl ⟨rfl, rfl, (hover.swallow hc).mono (by omega)⟩
    · split at hs
      · next hbreak =>
        cases hs
        subst hbreak
        exact Or.inl ⟨rfl, rfl, (hover.swallow (by decide)).mono (by omega)⟩
      · split at hs
        · next hreturn =>
          cases hs
          subst hreturn
          exact Or.inl ⟨rfl, rfl, (hover.swallow (by decide)).mono (by omega)⟩
        · split at hs
          · exact onBasic_overLines hover hs
          · cases hs
  | trimReturn p' buf =>
    obtain ⟨rfl, hover⟩ := hin
    simp only [step] at hs
    split at hs
    · next hbreak =>
      cases hs
      subst hbreak
      exact Or.inl ⟨rfl, rfl, (hover.swallow (by decide)).mono (by omega)⟩
    · cases hs
  | stringReturn p' q buf first =>
    obtain ⟨rfl, rfl, hover⟩ := hin
    simp only [step, if_true] at hs
    split at hs
    · next hbreak =>
      cases hs
      subst hbreak
      refine Or.inl ⟨rfl, rfl, ?_⟩
      cases first with
      | true => exact (hover.swallow (by decide)).mono (by omega)
      | false => exact ((hover.swallow (by decide)).extra '\r').extra '\n'
    · cases hs
  | quotesEnd p' q buf n =>
    obtain ⟨rfl, rfl, hover, raw, rfl⟩ := hin
    simp only [step] at hs
    split at hs
    · next hquote =>
      split at hs
      · cases hs
        subst hquote
        exact Or.inl ⟨rfl, rfl, rfl, (hover.swallow (by decide)).mono (by omega), _, rfl⟩
      · cases hs
    · split at hs
      · next hn => exact Or.inr (closed_of_endBefore hp (hover.encodes hn) hs)
      · exact onBasic_overLines hover.unclosed hs
  | _ => exact absurd hin (by simp [Inside])

/-- **Some text**, by induction over it. -/
theorem read_stringRun (hp : p.frames = []) (h : StringRun d p r s) {text : List Char}
    (hs : read s text = some s') : StringRun d p (r ++ text) s' := by
  induction text generalizing r s with
  | nil =>
    cases hs
    rw [List.append_nil]
    exact h
  | cons c text ih =>
    obtain ⟨s₁, hs₁, hs⟩ := Option.bind_eq_some_iff.mp hs
    have hrun := ih (step_stringRun hp h hs₁) hs
    rw [List.append_assoc, List.singleton_append] at hrun
    exact hrun

end StringRun

/-- **A string value in a complete document** has been closed, and the document has kept it. -/
theorem closed_of_finish {d d' : Doc} {key : List (List Char)} {text : List Char}
    (h : complete ⟨d, .quote ⟨key, []⟩ '"' false⟩ text = some d') :
    ∃ raw v rest d₁, text ++ ['\n'] = raw ++ '"' :: rest ∧ Encodes raw v ∧
      d.keyval key (.str v) = some d₁ ∧ KeepsIn d₁.root d'.root := by
  obtain ⟨s, hs, hfin⟩ := Option.bind_eq_some_iff.mp h
  have hopen : StringRun d ⟨key, []⟩ [] ⟨d, .quote ⟨key, []⟩ '"' false⟩ :=
    Or.inl ⟨rfl, rfl, rfl, rfl⟩
  have hrun := step_stringRun rfl (read_stringRun rfl hopen hs) (step_newline hfin)
  obtain ⟨-, hin⟩ | hclosed := hrun
  · exact absurd hin (by simp [Inside])
  · exact hclosed

/-- **A text that is its own value is plain**, when it is written between quotes on a line, and
an `o` comes before the next quote. -/
theorem plain_of_encodes {raw v rest tail : List Char} (h : Encodes raw v)
    (heq : v ++ '"' :: '\n' :: tail = raw ++ '"' :: rest)
    (htail : ∀ t, t ++ ['"'] <+: tail → 'o' ∈ t) : Plain v := by
  rcases h with ⟨-, hplain⟩ | ⟨hlen, hbad⟩
  · exact hplain
  exfalso
  -- the string was closed by a later quote
  have hlater : ∃ t, raw = v ++ '"' :: '\n' :: t ∧ t ++ ['"'] <+: tail := by
    obtain ⟨t, rfl, ht⟩ : ∃ t, raw = v ++ t ∧ '"' :: '\n' :: tail = t ++ '"' :: rest := by
      rcases List.append_eq_append_iff.mp heq with ⟨t, hraw, ht⟩ | ⟨t, hv, -⟩
      · exact ⟨t, hraw, ht⟩
      · rw [hv, List.length_append] at hlen
        omega
    rw [List.length_append] at hlen
    match t, ht with
    | [], _ => exact absurd hlen (by simp)
    | [a], ht =>
      have hnq : '\n' = '"' := (List.cons.inj (List.cons.inj ht).2).1
      exact absurd hnq (by decide)
    | a :: b :: t, ht =>
      simp only [List.cons_append, List.cons.injEq] at ht
      obtain ⟨rfl, rfl, rfl⟩ := ht
      exact ⟨t, rfl, rest, by rw [List.append_assoc, List.singleton_append]⟩
  obtain ⟨t, rfl, ht⟩ := hlater
  rcases hbad with hn | ho
  · exact hn (by simp)
  · have hpos : 0 < t.count 'o' := List.count_pos_iff.mpr (htail t ht)
    simp only [List.count_append, List.count_cons] at ho
    omega

end Toml
