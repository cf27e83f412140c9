/-
# A flag with guards

Clients share an atomic flag.  A client that raises it with `compare_exchange` owns a guard
from then on, and when the guard is dropped, however that happens, the flag is lowered.  The
guard is built only by an exchange that succeeded, so a client that comes second owns nothing
that could lower the flag for the first.

In every run at most one guard exists, and the flag is up exactly while one does.
-/
import LlmCtl.ListTable
import LlmCtl.Runs

namespace RaiiFlag

open EventSystem ListTable

/-! ## The flag -/

/-- The flag, and for each client whether it owns a guard. -/
structure Flag where
  up : Bool
  owns : List Bool

/-- `compare_exchange`: the flag after it, and whether it succeeded. -/
def compareExchange (flag current new : Bool) : Bool × Bool :=
  if flag = current then (new, true) else (flag, false)

inductive Act where
  | join
  /-- A client without a guard tries to raise the flag. -/
  | acquire (i : ℕ)
  /-- A guard is dropped. -/
  | drop (i : ℕ)

/-- One step.  Nothing is observed. -/
def flagStep (f : Flag) : Act → Option (Flag × List Empty)
  | .join => some ({ f with owns := f.owns ++ [false] }, [])
  | .acquire i =>
    match f.owns[i]? with
    | some false =>
      let exchanged := compareExchange f.up false true
      some (⟨exchanged.1, f.owns.modify i fun _ => exchanged.2⟩, [])
    | _ => none
  | .drop i =>
    match f.owns[i]? with
    | some true => some (⟨false, f.owns.modify i fun _ => false⟩, [])
    | _ => none

/-- The flag as a system: it begins lowered and without clients. -/
def flags : EventSystem Flag Act Empty where
  init := fun f => f = ⟨false, []⟩
  step := flagStep

/-- Client `i` owns a guard. -/
def Flag.Owns (f : Flag) (i : ℕ) : Prop := f.owns[i]? = some true

/-! ## What an exchange does -/

theorem compareExchange_lowered : compareExchange false false true = (true, true) := rfl

/-- An exchange on a raised flag leaves it raised, and yields no guard. -/
theorem compareExchange_raised : compareExchange true false true = (true, false) := rfl

/-! ## The invariant -/

/-- **One guard at most, and the flag is up exactly while there is one.** -/
structure Exclusive (f : Flag) : Prop where
  unique : ∀ i j, f.Owns i → f.Owns j → i = j
  up_iff : f.up = true ↔ ∃ i, f.Owns i

section Step

variable {f f' : Flag} {i : ℕ}

/-- While the flag is down nobody owns a guard. -/
theorem Exclusive.lowered (h : Exclusive f) (hf : f.up = false) : ¬ ∃ i, f.Owns i := by
  intro howner
  rw [h.up_iff.mpr howner] at hf
  exact absurd hf (by simp)

/-- A new client owns nothing. -/
theorem Exclusive.joined (h : Exclusive f) : Exclusive { f with owns := f.owns ++ [false] } := by
  have howns : ∀ j, Flag.Owns { f with owns := f.owns ++ [false] } j ↔ f.Owns j := by
    intro j
    constructor
    · intro hj
      rcases getElem?_concat_cases hj with hj | ⟨-, hfalse⟩
      · exact hj
      · exact absurd hfalse (by simp)
    · exact getElem?_concat_of_some
  constructor
  · intro j k hj hk
    exact h.unique j k ((howns j).mp hj) ((howns k).mp hk)
  · simp only [howns]
    exact h.up_iff

/-- The first client raises the flag and owns the guard. -/
theorem Exclusive.raised (h : Exclusive f) (hf : f.up = false) (hi : f.owns[i]? = some false) :
    Exclusive ⟨true, f.owns.modify i fun _ => true⟩ := by
  have hu := updates_modify (f := fun _ => true) hi
  have honly : ∀ j, Flag.Owns ⟨true, f.owns.modify i fun _ => true⟩ j → j = i := by
    intro j hj
    rcases hu.cases hj with ⟨rfl, -⟩ | ⟨-, hold⟩
    · rfl
    · exact absurd ⟨j, hold⟩ (h.lowered hf)
  constructor
  · intro j k hj hk
    exact (honly j hj).trans (honly k hk).symm
  · exact ⟨fun _ => ⟨i, hu.self⟩, fun _ => rfl⟩

/-- The owner drops its guard: there was no other. -/
theorem Exclusive.lower (h : Exclusive f) (hi : f.Owns i) :
    Exclusive ⟨false, f.owns.modify i fun _ => false⟩ := by
  have hu := updates_modify (f := fun _ => false) hi
  have hnone : ∀ j, ¬ Flag.Owns ⟨false, f.owns.modify i fun _ => false⟩ j := by
    intro j hj
    rcases hu.cases hj with ⟨-, hfalse⟩ | ⟨hji, hold⟩
    · exact absurd hfalse (by simp)
    · exact hji (h.unique j i hold hi)
  constructor
  · intro j k hj _
    exact absurd hj (hnone j)
  · constructor
    · intro hup
      exact absurd hup (by simp)
    · rintro ⟨j, hj⟩
      exact absurd hj (hnone j)

/-- A client that comes second changes nothing. -/
theorem flagStep_acquire_raised (hf : f.up = true) (hi : f.owns[i]? = some false) :
    flagStep f (.acquire i) = some (f, []) := by
  have hsame : (f.owns.modify i fun _ => false) = f.owns := modify_of_eq hi
  simp only [flagStep, hi, hf, compareExchange_raised]
  rw [hsame, ← hf]

theorem flagStep_acquire_lowered (hf : f.up = false) (hi : f.owns[i]? = some false) :
    flagStep f (.acquire i) = some (⟨true, f.owns.modify i fun _ => true⟩, []) := by
  simp only [flagStep, hi, hf, compareExchange_lowered]

/-- Every step keeps the invariant. -/
theorem Exclusive.step {a : Act} {ev : List Empty} (h : Exclusive f)
    (hs : flagStep f a = some (f', ev)) : Exclusive f' := by
  cases a with
  | join =>
    obtain ⟨rfl, -⟩ := Prod.mk.inj (Option.some.inj hs)
    exact h.joined
  | acquire i =>
    cases hi : f.owns[i]? with
    | none => simp [flagStep, hi] at hs
    | some owner =>
      cases owner with
      | true => simp [flagStep, hi] at hs
      | false =>
        cases hf : f.up with
        | true =>
          rw [flagStep_acquire_raised hf hi] at hs
          obtain ⟨rfl, -⟩ := Prod.mk.inj (Option.some.inj hs)
          exact h
        | false =>
          rw [flagStep_acquire_lowered hf hi] at hs
          obtain ⟨rfl, -⟩ := Prod.mk.inj (Option.some.inj hs)
          exact h.raised hf hi
  | drop i =>
    simp only [flagStep] at hs
    split at hs
    · next hi =>
      obtain ⟨rfl, -⟩ := Prod.mk.inj (Option.some.inj hs)
      exact h.lower hi
    · exact absurd hs (by simp)

end Step

/-- **The flag never wedges.** -/
theorem exclusive_of_run {ok : List Empty → Flag → Act → Prop} {tr : List Empty} {f : Flag}
    (h : flags.Run ok tr f) : Exclusive f := by
  refine h.invariant (I := fun _ f => Exclusive f) ?_ ?_
  · rintro _ rfl
    constructor
    · intro i j hi _
      exact absurd hi (by simp [Flag.Owns])
    · simp [Flag.Owns]
  · intro _ f a f' ev _ _ hs hf
    exact hf.step hs

end RaiiFlag
