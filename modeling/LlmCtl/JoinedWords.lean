/-
# Words joined by single separators

A text is taken apart into words, the letters are folded, and the words are joined by one
separator each, with none at the ends.

* `isJoined_normalize`: the result is of this form, whatever the text was;
* `normalize_of_isJoined`: a text of this form is left as it is.

So `normalize` is idempotent, and its values are just the texts of this form.
-/
import Mathlib.Data.List.Chain
import Mathlib.Data.List.TakeWhile
import Mathlib.Tactic.Common

namespace JoinedWords

variable {α : Type*}

/-! ## The loop -/

/-- The letters, folded, with one separator for whatever lies between two of them.  `pending` says
that the separator has been written. -/
def squeeze (letter : α → Bool) (fold : α → α) (sep : α) (pending : Bool) : List α → List α
  | [] => []
  | c :: cs =>
    if letter c then fold c :: squeeze letter fold sep false cs
    else if pending then squeeze letter fold sep true cs
    else sep :: squeeze letter fold sep true cs

/-- No separators at the ends. -/
def trimSeparators [DecidableEq α] (sep : α) (l : List α) : List α :=
  ((l.dropWhile (· = sep)).reverse.dropWhile (· = sep)).reverse

/-- The words of a text, joined by single separators. -/
def normalize [DecidableEq α] (letter : α → Bool) (fold : α → α) (sep : α) (l : List α) : List α :=
  trimSeparators sep (squeeze letter fold sep false l)

/-- Folded letters and separators, where no separator is next to another one or at an end. -/
structure IsJoined (letter : α → Bool) (fold : α → α) (sep : α) (l : List α) : Prop where
  letters : ∀ c ∈ l, letter c = true ∧ fold c = c ∨ c = sep
  lead : l.head? ≠ some sep
  trail : l.getLast? ≠ some sep
  single : l.IsChain fun a b => a ≠ sep ∨ b ≠ sep

/-! ## The ends -/

theorem head?_dropWhile_ne [DecidableEq α] (sep : α) (l : List α) :
    (l.dropWhile (· = sep)).head? ≠ some sep := by
  intro h
  have hnot := List.head?_dropWhile_not (fun c => decide (c = sep)) l
  rw [h] at hnot
  exact of_decide_eq_false hnot rfl

theorem dropWhile_of_head? [DecidableEq α] {sep : α} {l : List α} (h : l.head? ≠ some sep) :
    l.dropWhile (· = sep) = l := by
  cases l with
  | nil => rfl
  | cons c cs =>
    have hc : ¬ decide (c = sep) = true := fun hc =>
      h (congrArg some (of_decide_eq_true hc))
    exact List.dropWhile_cons_of_neg hc

theorem isInfix_trimSeparators [DecidableEq α] (sep : α) (l : List α) :
    trimSeparators sep l <:+: l := by
  have hleft : l.dropWhile (· = sep) <:+: l := (List.dropWhile_suffix _).isInfix
  have hright : (l.dropWhile (· = sep)).reverse.dropWhile (· = sep)
      <:+: (l.dropWhile (· = sep)).reverse := (List.dropWhile_suffix _).isInfix
  refine List.IsInfix.trans ?_ hleft
  refine List.reverse_infix.mp ?_
  rwa [trimSeparators, List.reverse_reverse]

theorem trimSeparators_of_ends [DecidableEq α] {sep : α} {l : List α} (hlead : l.head? ≠ some sep)
    (htrail : l.getLast? ≠ some sep) : trimSeparators sep l = l := by
  have hback : l.reverse.head? ≠ some sep := by rwa [List.head?_reverse]
  rw [trimSeparators, dropWhile_of_head? hlead, dropWhile_of_head? hback, List.reverse_reverse]

theorem getLast?_trimSeparators [DecidableEq α] (sep : α) (l : List α) :
    (trimSeparators sep l).getLast? ≠ some sep := by
  rw [trimSeparators, List.getLast?_reverse]
  exact head?_dropWhile_ne sep _

theorem head?_trimSeparators [DecidableEq α] (sep : α) (l : List α) :
    (trimSeparators sep l).head? ≠ some sep := by
  -- what is dropped at the end leaves the first letter, or nothing
  have hprefix : trimSeparators sep l <+: l.dropWhile (· = sep) :=
    List.reverse_suffix.mp (by
      rw [trimSeparators, List.reverse_reverse]
      exact List.dropWhile_suffix _)
  intro h
  obtain ⟨cs, hcs⟩ := List.head?_eq_some_iff.mp h
  obtain ⟨rest, hrest⟩ := hprefix
  refine head?_dropWhile_ne sep l ?_
  rw [← hrest, hcs, List.cons_append, List.head?_cons]

/-! ## The form -/

section Form

variable {letter : α → Bool} {fold : α → α} {sep : α}
  (hsep : letter sep = false) (hfold : ∀ c, letter c = true → letter (fold c) = true)
  (hidem : ∀ c, letter c = true → fold (fold c) = fold c)

include hfold hidem in
theorem letters_squeeze (pending : Bool) (l : List α) :
    ∀ c ∈ squeeze letter fold sep pending l, letter c = true ∧ fold c = c ∨ c = sep := by
  fun_induction squeeze letter fold sep pending l with
  | case1 pending => exact fun c hc => absurd hc List.not_mem_nil
  | case2 pending c cs hc ih =>
    exact List.forall_mem_cons.mpr ⟨.inl ⟨hfold c hc, hidem c hc⟩, ih⟩
  | case3 c cs hc ih => exact ih
  | case4 pending c cs hc hp ih => exact List.forall_mem_cons.mpr ⟨.inr rfl, ih⟩

include hsep hfold in
/-- No two separators in a row, also with the one that has been written. -/
theorem single_squeeze (pending : Bool) (l : List α) :
    (squeeze letter fold sep pending l).IsChain (fun a b => a ≠ sep ∨ b ≠ sep) ∧
      (pending = true → (squeeze letter fold sep pending l).head? ≠ some sep) := by
  fun_induction squeeze letter fold sep pending l with
  | case1 pending => exact ⟨.nil, fun _ => by simp⟩
  | case2 pending c cs hc ih =>
    have hne : fold c ≠ sep := fun he => by
      have hletter := hfold c hc
      rw [he, hsep] at hletter
      exact Bool.false_ne_true hletter
    refine ⟨ih.1.cons fun _ _ => .inl hne, fun _ => ?_⟩
    rw [List.head?_cons]
    exact fun he => hne (Option.some.inj he)
  | case3 c cs hc ih => exact ih
  | case4 pending c cs hc hp ih =>
    refine ⟨ih.1.cons fun b hb => .inr ?_, fun hpend => absurd hpend hp⟩
    rintro rfl
    exact ih.2 rfl hb

include hsep hfold hidem in
/-- **The result is words joined by single separators.** -/
theorem isJoined_normalize [DecidableEq α] (l : List α) :
    IsJoined letter fold sep (normalize letter fold sep l) where
  letters := fun c hc =>
    letters_squeeze hfold hidem false l c ((isInfix_trimSeparators sep _).mem hc)
  lead := head?_trimSeparators sep _
  trail := getLast?_trimSeparators sep _
  single := by
    obtain ⟨before, after, heq⟩ := isInfix_trimSeparators sep (squeeze letter fold sep false l)
    have hsingle := (single_squeeze hsep hfold false l).1
    rw [← heq] at hsingle
    exact hsingle.left_of_append.right_of_append

include hsep in
theorem squeeze_eq_self {pending : Bool} {l : List α}
    (hletters : ∀ c ∈ l, letter c = true ∧ fold c = c ∨ c = sep)
    (hsingle : l.IsChain fun a b => a ≠ sep ∨ b ≠ sep)
    (hpending : pending = true → l.head? ≠ some sep) : squeeze letter fold sep pending l = l := by
  induction l generalizing pending with
  | nil => rfl
  | cons c cs ih =>
    have hrest : ∀ d ∈ cs, letter d = true ∧ fold d = d ∨ d = sep :=
      fun d hd => hletters d (List.mem_cons_of_mem c hd)
    obtain ⟨hnext, hchain⟩ := List.isChain_cons.mp hsingle
    rcases hletters c List.mem_cons_self with ⟨hc, hfc⟩ | rfl
    · rw [squeeze, if_pos hc, hfc, ih hrest hchain (by simp)]
    · -- a separator, and so none before and none after it
      have hnew : ¬ pending = true := fun hp => hpending hp rfl
      have hafter : true = true → cs.head? ≠ some c := fun _ hd =>
        (hnext c hd).elim (fun hne => hne rfl) fun hne => hne rfl
      rw [squeeze, if_neg (by simp [hsep]), if_neg hnew, ih hrest hchain hafter]

include hsep in
/-- **A text of this form is left as it is.** -/
theorem normalize_of_isJoined [DecidableEq α] {l : List α} (h : IsJoined letter fold sep l) :
    normalize letter fold sep l = l := by
  rw [normalize, squeeze_eq_self hsep h.letters h.single (by simp),
    trimSeparators_of_ends h.lead h.trail]

end Form

end JoinedWords
