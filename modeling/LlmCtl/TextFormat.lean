/-
# Formats of texts

A format says how a value is printed and how it is read back.  Reading takes the value off the
front of a text and gives the rest; printing and reading undo each other, both ways, whatever
follows.  So a text is the print of at most one value, and no print is the beginning of another
one: what is left of a torn text is not read as anything.

Formats are put together from literals, one after another, by a choice, by repetition up to a
stop symbol, and along a partial bijection.
-/
import Mathlib.Data.List.Infix

/-- Values of type `α` as texts over `β`. -/
structure TextFormat (α β : Type*) where
  print : α → List β
  read : List β → Option (α × List β)
  /-- What is printed is read back, whatever follows it. -/
  read_print : ∀ a rest, read (print a ++ rest) = some (a, rest)
  /-- What is read was printed. -/
  read_sound : ∀ {t a rest}, read t = some (a, rest) → t = print a ++ rest

/-- A codec: decoding undoes encoding, and a torn text is no encoding of anything. -/
structure Codec (α β : Type*) where
  encode : α → List β
  decode : List β → Option α
  decode_encode : ∀ a, decode (encode a) = some a
  decode_torn : ∀ {a t rest}, encode a = t ++ rest → rest ≠ [] → decode t = none

namespace TextFormat

variable {α β γ : Type*}

/-! ## Whole texts -/

/-- A text that is one value and nothing else. -/
def parse (f : TextFormat α β) (t : List β) : Option α :=
  match f.read t with
  | some (a, []) => some a
  | _ => none

/-- What is printed first can be told from what follows. -/
theorem print_separates (f : TextFormat α β) {a b : α} {s t : List β}
    (h : f.print a ++ s = f.print b ++ t) : a = b ∧ s = t := by
  have hread := f.read_print a s
  rw [h, f.read_print] at hread
  obtain ⟨rfl, rfl⟩ := Prod.mk.inj (Option.some.inj hread)
  exact ⟨rfl, rfl⟩

theorem parse_print (f : TextFormat α β) (a : α) : f.parse (f.print a) = some a := by
  have hread := f.read_print a []
  rw [List.append_nil] at hread
  rw [parse, hread]

theorem print_of_parse (f : TextFormat α β) {t : List β} {a : α} (h : f.parse t = some a) :
    f.print a = t := by
  unfold parse at h
  split at h
  · next b hread =>
    obtain rfl := Option.some.inj h
    rw [f.read_sound hread, List.append_nil]
  · exact absurd h (by simp)

/-- **A torn text is not read as anything.** -/
theorem parse_torn (f : TextFormat α β) {a : α} {t rest : List β} (h : f.print a = t ++ rest)
    (hrest : rest ≠ []) : f.parse t = none := by
  cases hparse : f.parse t with
  | none => rfl
  | some b =>
    have happ : f.print a ++ [] = f.print b ++ rest := by
      rw [List.append_nil, f.print_of_parse hparse, h]
    exact absurd (f.print_separates happ).2.symm hrest

/-- A format as a codec. -/
def codec (f : TextFormat α β) : Codec α β where
  encode := f.print
  decode := f.parse
  decode_encode := f.parse_print
  decode_torn := f.parse_torn

/-! ## Building blocks -/

/-- A fixed text. -/
def lit [DecidableEq β] (l : List β) : TextFormat Unit β where
  print := fun _ => l
  read := fun t => if l <+: t then some ((), t.drop l.length) else none
  read_print := by
    intro a rest
    rw [if_pos (List.prefix_append l rest), List.drop_left]
  read_sound := by
    intro t a rest h
    split at h
    · next hl =>
      obtain ⟨s, rfl⟩ := hl
      obtain ⟨-, rfl⟩ := Prod.mk.inj (Option.some.inj h)
      rw [List.drop_left]
    · exact absurd h (by simp)

/-- One value after another. -/
def seq (f : TextFormat α β) (g : TextFormat γ β) : TextFormat (α × γ) β where
  print := fun p => f.print p.1 ++ g.print p.2
  read := fun t => (f.read t).bind fun p => (g.read p.2).map fun q => ((p.1, q.1), q.2)
  read_print := by
    intro p rest
    rw [List.append_assoc, f.read_print, Option.bind_some, g.read_print]
    rfl
  read_sound := by
    intro t p rest h
    obtain ⟨⟨a, s⟩, hf, h⟩ := Option.bind_eq_some_iff.mp h
    obtain ⟨⟨c, s'⟩, hg, h⟩ := Option.map_eq_some_iff.mp h
    obtain ⟨rfl, rfl⟩ := Prod.mk.inj h
    rw [f.read_sound hf, List.append_assoc]
    exact congrArg (f.print a ++ ·) (g.read_sound hg)

/-- The same texts for other values; a text whose value has no counterpart is refused. -/
def via (f : TextFormat α β) (there : α → Option γ) (back : γ → α)
    (h : ∀ a c, there a = some c ↔ back c = a) : TextFormat γ β where
  print := fun c => f.print (back c)
  read := fun t => (f.read t).bind fun p => (there p.1).map fun c => (c, p.2)
  read_print := by
    intro c rest
    rw [f.read_print, Option.bind_some, (h (back c) c).mpr rfl]
    rfl
  read_sound := by
    intro t c rest hr
    obtain ⟨⟨a, s⟩, hf, hr⟩ := Option.bind_eq_some_iff.mp hr
    obtain ⟨c', hthere, hr⟩ := Option.map_eq_some_iff.mp hr
    obtain ⟨rfl, rfl⟩ := Prod.mk.inj hr
    rw [f.read_sound hf, ← (h a c').mp hthere]

/-- A fixed text and then a value. -/
def after [DecidableEq β] (l : List β) (f : TextFormat α β) : TextFormat α β :=
  ((lit l).seq f).via (fun p => some p.2) (fun a => ((), a)) fun p a =>
    ⟨fun h => by rw [← Option.some.inj h], fun h => by rw [← h]⟩

/-- A value and then a fixed text. -/
def before [DecidableEq β] (f : TextFormat α β) (l : List β) : TextFormat α β :=
  (f.seq (lit l)).via (fun p => some p.1) (fun a => (a, ())) fun p a =>
    ⟨fun h => by rw [← Option.some.inj h], fun h => by rw [← h]⟩

/-- The first format that fits; no text fits both. -/
def orElse (f : TextFormat α β) (g : TextFormat γ β)
    (h : ∀ a c s t, f.print a ++ s ≠ g.print c ++ t) : TextFormat (α ⊕ γ) β where
  print := Sum.elim f.print g.print
  read := fun t =>
    match f.read t with
    | some (a, rest) => some (.inl a, rest)
    | none => (g.read t).map fun p => (.inr p.1, p.2)
  read_print := by
    intro v rest
    cases v with
    | inl a =>
      rw [Sum.elim_inl, f.read_print]
    | inr c =>
      rw [Sum.elim_inr]
      cases hf : f.read (g.print c ++ rest) with
      | none =>
        show (g.read _).map _ = _
        rw [g.read_print]
        rfl
      | some p => exact absurd (f.read_sound hf).symm (h p.1 c p.2 rest)
  read_sound := by
    intro t v rest hr
    split at hr
    · next a s hf =>
      obtain ⟨rfl, rfl⟩ := Prod.mk.inj (Option.some.inj hr)
      exact f.read_sound hf
    · obtain ⟨⟨c, s⟩, hg, hr⟩ := Option.map_eq_some_iff.mp hr
      obtain ⟨rfl, rfl⟩ := Prod.mk.inj hr
      exact g.read_sound hg

section Until

variable [DecidableEq β]

/-- What precedes the first stop symbol, and what follows it. -/
def readUntil (stop : β) : List β → Option (List β × List β)
  | [] => none
  | c :: t => if c = stop then some ([], t) else (readUntil stop t).map fun p => (c :: p.1, p.2)

theorem readUntil_print {stop : β} {l : List β} (h : stop ∉ l) (rest : List β) :
    readUntil stop (l ++ stop :: rest) = some (l, rest) := by
  induction l with
  | nil => exact if_pos rfl
  | cons c l ih =>
    obtain ⟨hc, hl⟩ := not_or.mp (List.mem_cons.not.mp h)
    rw [List.cons_append, readUntil, if_neg (Ne.symm hc), ih hl]
    rfl

theorem readUntil_sound {stop : β} {t l rest : List β} (h : readUntil stop t = some (l, rest)) :
    stop ∉ l ∧ t = l ++ stop :: rest := by
  induction t generalizing l with
  | nil => exact absurd h (by simp [readUntil])
  | cons c t ih =>
    rw [readUntil] at h
    split at h
    · next hc =>
      obtain ⟨rfl, rfl⟩ := Prod.mk.inj (Option.some.inj h)
      exact ⟨List.not_mem_nil, by rw [hc]; rfl⟩
    · next hc =>
      obtain ⟨⟨l', s⟩, hl, h⟩ := Option.map_eq_some_iff.mp h
      obtain ⟨rfl, rfl⟩ := Prod.mk.inj h
      obtain ⟨hnot, rfl⟩ := ih hl
      refine ⟨fun hmem => ?_, rfl⟩
      rcases List.mem_cons.mp hmem with heq | hmem
      · exact hc heq.symm
      · exact hnot hmem

/-- A text without the stop symbol, and the stop symbol. -/
def upTo (stop : β) : TextFormat {l : List β // stop ∉ l} β where
  print := fun l => l.1 ++ [stop]
  read := fun t =>
    (readUntil stop t).bind fun p => if h : stop ∉ p.1 then some (⟨p.1, h⟩, p.2) else none
  read_print := by
    intro l rest
    rw [List.append_assoc, List.singleton_append, readUntil_print l.2, Option.bind_some,
      dif_pos l.2]
  read_sound := by
    intro t l rest h
    obtain ⟨⟨l', s⟩, hl, h⟩ := Option.bind_eq_some_iff.mp h
    split at h
    · obtain ⟨rfl, rfl⟩ := Prod.mk.inj (Option.some.inj h)
      rw [(readUntil_sound hl).2, List.append_assoc, List.singleton_append]
    · exact absurd h (by simp)

end Until

section Star

/-- No print of the format is empty or begins with the stop symbol. -/
def Avoids (f : TextFormat α β) (stop : β) : Prop :=
  ∀ a, ∃ c l, f.print a = c :: l ∧ c ≠ stop

theorem length_le_print {f : TextFormat α β} {stop : β} (h : f.Avoids stop) (as : List α) :
    as.length ≤ (as.flatMap f.print).length := by
  induction as with
  | nil => exact Nat.le_refl 0
  | cons a as ih =>
    obtain ⟨c, l, hprint, -⟩ := h a
    rw [List.flatMap_cons, List.length_append, hprint, List.length_cons, List.length_cons]
    omega

variable [DecidableEq β]

/-- Values up to the stop symbol; each takes at least one symbol, so the length of the text is
enough fuel. -/
def readStar (f : TextFormat α β) (stop : β) : ℕ → List β → Option (List α × List β)
  | 0, _ => none
  | _ + 1, [] => none
  | fuel + 1, c :: t =>
    if c = stop then some ([], t)
    else (f.read (c :: t)).bind fun p =>
      (readStar f stop fuel p.2).map fun q => (p.1 :: q.1, q.2)

theorem readStar_print {f : TextFormat α β} {stop : β} (h : f.Avoids stop) (as : List α)
    (rest : List β) : ∀ fuel, as.length < fuel →
      readStar f stop fuel (as.flatMap f.print ++ stop :: rest) = some (as, rest) := by
  induction as with
  | nil =>
    intro fuel hfuel
    obtain ⟨fuel, rfl⟩ : ∃ n, fuel = n + 1 := ⟨fuel - 1, by simp at hfuel; omega⟩
    exact if_pos rfl
  | cons a as ih =>
    intro fuel hfuel
    rw [List.length_cons] at hfuel
    obtain ⟨fuel, rfl⟩ : ∃ n, fuel = n + 1 := ⟨fuel - 1, by omega⟩
    obtain ⟨c, l, hprint, hc⟩ := h a
    have hread := f.read_print a (as.flatMap f.print ++ stop :: rest)
    rw [List.flatMap_cons, List.append_assoc]
    rw [hprint, List.cons_append] at hread ⊢
    rw [readStar, if_neg hc, hread, Option.bind_some, ih fuel (by omega)]
    rfl

theorem readStar_sound {f : TextFormat α β} {stop : β} {fuel : ℕ} {t : List β} {as : List α}
    {rest : List β} (h : readStar f stop fuel t = some (as, rest)) :
    t = as.flatMap f.print ++ stop :: rest := by
  induction fuel generalizing t as with
  | zero => exact absurd h (by simp [readStar])
  | succ fuel ih =>
    cases t with
    | nil => exact absurd h (by simp [readStar])
    | cons c t =>
      rw [readStar] at h
      split at h
      · next hc =>
        obtain ⟨rfl, rfl⟩ := Prod.mk.inj (Option.some.inj h)
        rw [hc]
        rfl
      · obtain ⟨⟨a, s⟩, hf, h⟩ := Option.bind_eq_some_iff.mp h
        obtain ⟨⟨as', s'⟩, hstar, h⟩ := Option.map_eq_some_iff.mp h
        obtain ⟨rfl, rfl⟩ := Prod.mk.inj h
        rw [f.read_sound hf, List.flatMap_cons, List.append_assoc]
        exact congrArg (f.print a ++ ·) (ih hstar)

/-- Any number of values, and the stop symbol. -/
def star (f : TextFormat α β) (stop : β) (h : f.Avoids stop) : TextFormat (List α) β where
  print := fun as => as.flatMap f.print ++ [stop]
  read := fun t => readStar f stop t.length t
  read_print := by
    intro as rest
    rw [List.append_assoc, List.singleton_append]
    apply readStar_print h
    have hlen := length_le_print h as
    rw [List.length_append, List.length_cons]
    omega
  read_sound := by
    intro t as rest hr
    rw [readStar_sound hr, List.append_assoc, List.singleton_append]

end Star

end TextFormat
