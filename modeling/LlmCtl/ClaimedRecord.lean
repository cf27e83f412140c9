/-
# A shared record with one claimant at a time

Parties share a record.  A party that finds it at rest may claim it: it puts a fresh, busy
record in its place, and from then on writes to the record until a last write puts it to rest
again.  Nothing in the record says whose it is.

`Slot` adds what the record does not say: the number of the claim that created it, and for each
party the number of the claim that it works under.  In every run at most one party works under
a claim, that claim is the one that created the record, and a record at rest changes only when
it is claimed.  A busy record always has its claimant, unless a claimant went away.

`Managed f` says that a system is such a slot, seen through `f`, and carries the facts over.
-/
import LlmCtl.ListTable
import LlmCtl.Runs

namespace ClaimedRecord

open EventSystem ListTable

/-! ## The slot -/

/-- The record, the number of the claim that created it (zero before the first one), and for
each party the number of the claim that it works under. -/
structure Slot (J : Type*) where
  record : J
  gen : ℕ
  holds : List (Option ℕ)

inductive Act (J : Type*) where
  | join
  | claim (i : ℕ) (record : J)
  | refuse (i : ℕ)
  | write (i : ℕ) (record : J)
  /-- The last write under a claim. -/
  | finish (i : ℕ) (record : J)
  /-- The claimant goes away before its last write. -/
  | abandon (i : ℕ)

/-- A write is observed with the claim of the writer and that of the record. -/
inductive Event where
  | claimed (i n : ℕ)
  | refused (i : ℕ)
  | wrote (i n gen : ℕ)
  | finished (i n gen : ℕ)
  | abandoned (i n : ℕ)
  deriving DecidableEq, Repr

variable {J : Type*}

namespace Slot

/-- Party `i` works under claim `n`. -/
def Holds (s : Slot J) (i n : ℕ) : Prop := s.holds[i]? = some (some n)

/-- Party `i` begins or ends to work under a claim. -/
def setHold (s : Slot J) (i : ℕ) (h : Option ℕ) : Slot J :=
  { s with holds := s.holds.modify i fun _ => h }

end Slot

/-- One step of the slot. -/
def slotStep (busy : J → Bool) (s : Slot J) : Act J → Option (Slot J × List Event)
  | .join => some ({ s with holds := s.holds ++ [none] }, [])
  | .claim i record =>
    match s.holds[i]? with
    | some none =>
      if !busy s.record && busy record then
        some ({ s with record := record, gen := s.gen + 1 }.setHold i (some (s.gen + 1)),
          [.claimed i (s.gen + 1)])
      else none
    | _ => none
  | .refuse i => if busy s.record then some (s, [.refused i]) else none
  | .write i record =>
    match s.holds[i]? with
    | some (some n) =>
      if busy record then some ({ s with record := record }, [.wrote i n s.gen]) else none
    | _ => none
  | .finish i record =>
    match s.holds[i]? with
    | some (some n) =>
      if !busy record then
        some ({ s with record := record }.setHold i none, [.finished i n s.gen])
      else none
    | _ => none
  | .abandon i =>
    match s.holds[i]? with
    | some (some n) => some (s.setHold i none, [.abandoned i n])
    | _ => none

/-- The slot as a system: it begins at rest. -/
def slot (busy : J → Bool) : EventSystem (Slot J) (Act J) Event where
  init := fun s => busy s.record = false ∧ s.gen = 0 ∧ s.holds = []
  step := slotStep busy

/-! ## What one step can do -/

/-- The outcomes of a step. -/
inductive SlotStep (busy : J → Bool) (s : Slot J) : Act J → List Event → Slot J → Prop
  | join : SlotStep busy s .join [] { s with holds := s.holds ++ [none] }
  | claim (i : ℕ) (record : J) (hi : s.holds[i]? = some none) (hrest : busy s.record = false)
      (hbusy : busy record = true) :
      SlotStep busy s (.claim i record) [.claimed i (s.gen + 1)]
        ({ s with record := record, gen := s.gen + 1 }.setHold i (some (s.gen + 1)))
  | refuse (i : ℕ) (hbusy : busy s.record = true) : SlotStep busy s (.refuse i) [.refused i] s
  | write (i n : ℕ) (record : J) (hi : s.Holds i n) (hbusy : busy record = true) :
      SlotStep busy s (.write i record) [.wrote i n s.gen] { s with record := record }
  | finish (i n : ℕ) (record : J) (hi : s.Holds i n) (hrest : busy record = false) :
      SlotStep busy s (.finish i record) [.finished i n s.gen]
        ({ s with record := record }.setHold i none)
  | abandon (i n : ℕ) (hi : s.Holds i n) :
      SlotStep busy s (.abandon i) [.abandoned i n] (s.setHold i none)

theorem slotStep_cases {busy : J → Bool} {s s' : Slot J} {a : Act J} {ev : List Event}
    (h : slotStep busy s a = some (s', ev)) : SlotStep busy s a ev s' := by
  cases a with
  | join =>
    cases h
    exact .join
  | claim i record =>
    simp only [slotStep] at h
    split at h
    · next hi =>
      split at h
      · next hb =>
        cases h
        simp only [Bool.and_eq_true, Bool.not_eq_true'] at hb
        exact .claim i record hi hb.1 hb.2
      · exact absurd h (by simp)
    · exact absurd h (by simp)
  | refuse i =>
    simp only [slotStep] at h
    split at h
    · next hb =>
      cases h
      exact .refuse i hb
    · exact absurd h (by simp)
  | write i record =>
    simp only [slotStep] at h
    split at h
    · next n hi =>
      split at h
      · next hb =>
        cases h
        exact .write i n record hi hb
      · exact absurd h (by simp)
    · exact absurd h (by simp)
  | finish i record =>
    simp only [slotStep] at h
    split at h
    · next n hi =>
      split at h
      · next hb =>
        cases h
        exact .finish i n record hi (by simpa using hb)
      · exact absurd h (by simp)
    · exact absurd h (by simp)
  | abandon i =>
    simp only [slotStep] at h
    split at h
    · next n hi =>
      cases h
      exact .abandon i n hi
    · exact absurd h (by simp)

/-- A record at rest changes only when it is claimed. -/
theorem SlotStep.record_of_rest {busy : J → Bool} {s s' : Slot J} {a : Act J} {ev : List Event}
    (h : SlotStep busy s a ev s') (hok : ∀ i n, s.Holds i n → busy s.record = true)
    (hrest : busy s.record = false) (hev : ∀ i n, .claimed i n ∉ ev) : s'.record = s.record := by
  have hnobody : ∀ i n, ¬ s.Holds i n := by
    intro i n hi
    rw [hok i n hi] at hrest
    exact absurd hrest (by simp)
  cases h with
  | join => rfl
  | claim i record hi => exact absurd List.mem_cons_self (hev i (s.gen + 1))
  | refuse i => rfl
  | write i n record hi => exact absurd hi (hnobody i n)
  | finish i n record hi => exact absurd hi (hnobody i n)
  | abandon i n hi => rfl

/-! ## The invariant -/

/-- A claim comes only when every earlier one has had its last write. -/
def ClaimsAfter (before : List Event) (e : Event) : Prop :=
  ∀ i n, e = .claimed i n → ∀ j m, .claimed j m ∈ before → ∃ k, .finished k m m ∈ before

/-- Every write is one under the claim that created the record. -/
def OwnWrite (e : Event) : Prop :=
  ∀ i n gen, e = .wrote i n gen ∨ e = .finished i n gen → n = gen

/-- **The invariant.** -/
structure SlotOk (busy : J → Bool) (tr : List Event) (s : Slot J) : Prop where
  current : ∀ i n, s.Holds i n → n = s.gen ∧ busy s.record = true
  unique : ∀ i j n m, s.Holds i n → s.Holds j m → i = j
  closed : ∀ i n, .claimed i n ∈ tr →
    (∃ k, .finished k n n ∈ tr) ∨ (n = s.gen ∧ busy s.record = true)
  owned : busy s.record = true → (∃ i n, s.Holds i n) ∨ ∃ i n, .abandoned i n ∈ tr
  forsaken : ∀ i n, .abandoned i n ∈ tr → busy s.record = true ∧ ∀ j m, ¬ s.Holds j m
  own : ∀ e ∈ tr, OwnWrite e

/-- Who works under a claim after one party has begun or ended. -/
theorem Slot.holds_setHold {s : Slot J} {i j m : ℕ} {h h₀ : Option ℕ} (hi : s.holds[i]? = some h₀)
    (hj : (s.setHold i h).Holds j m) : (j = i ∧ h = some m) ∨ (j ≠ i ∧ s.Holds j m) := by
  rcases (updates_modify (f := fun _ => h) hi).cases hj with ⟨hji, hm⟩ | hold
  · exact .inl ⟨hji, hm.symm⟩
  · exact .inr hold

theorem Slot.setHold_self {s : Slot J} {i n : ℕ} {h₀ : Option ℕ} (hi : s.holds[i]? = some h₀) :
    (s.setHold i (some n)).Holds i n := (updates_modify (f := fun _ => some n) hi).self

section Keep

variable {busy : J → Bool} {tr : List Event} {s : Slot J}

/-- Other events are no writes. -/
theorem ownWrite_of_other {e : Event} (hw : ∀ i n gen, e ≠ .wrote i n gen)
    (hf : ∀ i n gen, e ≠ .finished i n gen) : OwnWrite e := by
  rintro i n gen (heq | heq)
  · exact absurd heq (hw i n gen)
  · exact absurd heq (hf i n gen)

/-- Claims stay closed. -/
theorem SlotOk.closed_cons (h : SlotOk busy tr s) {e : Event} (hother : ∀ i n, e ≠ .claimed i n)
    {i n : ℕ} (he : .claimed i n ∈ e :: tr) :
    (∃ k, .finished k n n ∈ e :: tr) ∨ (n = s.gen ∧ busy s.record = true) := by
  rcases List.mem_cons.mp he with heq | he
  · exact absurd heq.symm (hother i n)
  · exact (h.closed i n he).imp_left fun ⟨k, hk⟩ => ⟨k, List.mem_cons_of_mem _ hk⟩

/-- A claimant that is there is not forsaken by another event. -/
theorem SlotOk.not_forsaken (h : SlotOk busy tr s) {e : Event} {i j n m : ℕ}
    (hother : ∀ i n, e ≠ .abandoned i n) (hi : s.Holds i n) : .abandoned j m ∉ e :: tr := by
  intro he
  rcases List.mem_cons.mp he with heq | he
  · exact hother j m heq.symm
  · exact (h.forsaken j m he).2 i n hi

theorem SlotOk.join (h : SlotOk busy tr s) :
    SlotOk busy tr { s with holds := s.holds ++ [none] } := by
  have hold : ∀ {i n}, Slot.Holds { s with holds := s.holds ++ [none] } i n → s.Holds i n := by
    intro i n hi
    rcases getElem?_concat_cases hi with hi' | ⟨-, hnone⟩
    · exact hi'
    · exact absurd hnone (by simp)
  exact
    { current := fun i n hi => h.current i n (hold hi)
      unique := fun i j n m hi hj => h.unique i j n m (hold hi) (hold hj)
      closed := h.closed
      owned := fun hbusy => (h.owned hbusy).imp_left fun ⟨i, n, hi⟩ =>
        ⟨i, n, getElem?_concat_of_some hi⟩
      forsaken := fun i n he => ⟨(h.forsaken i n he).1, fun j m hj =>
        (h.forsaken i n he).2 j m (hold hj)⟩
      own := h.own }

/-- A claim on a record at rest. -/
theorem SlotOk.claim (h : SlotOk busy tr s) {i : ℕ} {record : J} (hi : s.holds[i]? = some none)
    (hrest : busy s.record = false) (hbusy : busy record = true) :
    SlotOk busy (.claimed i (s.gen + 1) :: tr)
      ({ s with record := record, gen := s.gen + 1 }.setHold i (some (s.gen + 1))) := by
  have honly : ∀ {j m}, Slot.Holds ({ s with record := record, gen := s.gen + 1 }.setHold i
      (some (s.gen + 1))) j m → j = i ∧ m = s.gen + 1 := by
    intro j m hj
    rcases Slot.holds_setHold (s := { s with record := record, gen := s.gen + 1 }) hi hj with
      ⟨hji, hm⟩ | ⟨-, hold⟩
    · exact ⟨hji, (Option.some.inj hm).symm⟩
    · have hb := (h.current j m hold).2
      rw [hrest] at hb
      exact absurd hb (by simp)
  refine
    { current := fun j m hj => ⟨(honly hj).2, hbusy⟩
      unique := fun j k n m hj hk => (honly hj).1.trans (honly hk).1.symm
      closed := fun j m he => ?_
      owned := fun _ => .inl ⟨i, _, Slot.setHold_self
        (s := { s with record := record, gen := s.gen + 1 }) hi⟩
      forsaken := fun j m he => ?_
      own := fun e he => ?_ }
  · rcases List.mem_cons.mp he with heq | he
    · exact .inr ⟨(Event.claimed.inj heq).2, hbusy⟩
    · rcases h.closed j m he with ⟨k, hk⟩ | ⟨-, hb⟩
      · exact .inl ⟨k, List.mem_cons_of_mem _ hk⟩
      · rw [hrest] at hb
        exact absurd hb (by simp)
  · rcases List.mem_cons.mp he with heq | he
    · exact absurd heq (by simp)
    · have hb := (h.forsaken j m he).1
      rw [hrest] at hb
      exact absurd hb (by simp)
  · rcases List.mem_cons.mp he with rfl | he
    · exact ownWrite_of_other (by simp) (by simp)
    · exact h.own e he

theorem SlotOk.refuse (h : SlotOk busy tr s) (i : ℕ) : SlotOk busy (.refused i :: tr) s where
  current := h.current
  unique := h.unique
  closed := fun j m he => h.closed_cons (by simp) he
  owned := fun hb => (h.owned hb).imp_right fun ⟨j, m, he⟩ => ⟨j, m, List.mem_cons_of_mem _ he⟩
  forsaken := fun j m he => h.forsaken j m ((List.mem_cons.mp he).resolve_left (by simp))
  own := List.forall_mem_cons.mpr ⟨ownWrite_of_other (by simp) (by simp), h.own⟩

/-- The claimant writes and goes on. -/
theorem SlotOk.write (h : SlotOk busy tr s) {i n : ℕ} {record : J} (hi : s.Holds i n)
    (hbusy : busy record = true) :
    SlotOk busy (.wrote i n s.gen :: tr) { s with record := record } where
  current := fun j m hj => ⟨(h.current j m hj).1, hbusy⟩
  unique := h.unique
  closed := fun j m he => (h.closed_cons (by simp) he).imp_right fun hm => ⟨hm.1, hbusy⟩
  owned := fun _ => .inl ⟨i, n, hi⟩
  forsaken := fun j m he => absurd he (h.not_forsaken (by simp) hi)
  own := by
    refine List.forall_mem_cons.mpr ⟨?_, h.own⟩
    rintro j m gen (heq | heq)
    · obtain ⟨-, rfl, rfl⟩ := Event.wrote.inj heq
      exact (h.current i n hi).1
    · exact absurd heq (by simp)

/-- After the claimant's last write nobody works under a claim. -/
theorem SlotOk.nobody_left (h : SlotOk busy tr s) {i n : ℕ} (hi : s.Holds i n) (record : J) :
    ∀ j m, ¬ Slot.Holds ({ s with record := record }.setHold i none) j m := by
  intro j m hj
  rcases Slot.holds_setHold (s := { s with record := record }) hi hj with ⟨-, hm⟩ | ⟨hji, hold⟩
  · exact absurd hm (by simp)
  · exact hji (h.unique j i m n hold hi)

/-- The claimant's last write. -/
theorem SlotOk.finish (h : SlotOk busy tr s) {i n : ℕ} {record : J} (hi : s.Holds i n)
    (hrest : busy record = false) :
    SlotOk busy (.finished i n s.gen :: tr) ({ s with record := record }.setHold i none) := by
  have hn : n = s.gen := (h.current i n hi).1
  have hnobody := h.nobody_left hi record
  refine
    { current := fun j m hj => absurd hj (hnobody j m)
      unique := fun j k m p hj => absurd hj (hnobody j m)
      closed := fun j m he => .inl ?_
      owned := fun hb => ?_
      forsaken := fun j m he => absurd he (h.not_forsaken (by simp) hi)
      own := List.forall_mem_cons.mpr ⟨?_, h.own⟩ }
  · rcases h.closed_cons (e := .finished i n s.gen) (by simp) he with hclosed | ⟨rfl, -⟩
    · exact hclosed
    · exact ⟨i, by rw [hn]; exact List.mem_cons_self⟩
  · replace hb : busy record = true := hb
    rw [hrest] at hb
    exact absurd hb (by simp)
  · rintro j m gen (heq | heq)
    · exact absurd heq (by simp)
    · obtain ⟨-, rfl, rfl⟩ := Event.finished.inj heq
      exact hn

/-- The claimant goes away; the record stays busy. -/
theorem SlotOk.abandon (h : SlotOk busy tr s) {i n : ℕ} (hi : s.Holds i n) :
    SlotOk busy (.abandoned i n :: tr) (s.setHold i none) := by
  have hbusy : busy s.record = true := (h.current i n hi).2
  have hnobody := h.nobody_left hi s.record
  exact
    { current := fun j m hj => absurd hj (hnobody j m)
      unique := fun j k m p hj => absurd hj (hnobody j m)
      closed := fun j m he => h.closed_cons (by simp) he
      owned := fun _ => .inr ⟨i, n, List.mem_cons_self⟩
      forsaken := fun j m _ => ⟨hbusy, hnobody⟩
      own := List.forall_mem_cons.mpr ⟨ownWrite_of_other (by simp) (by simp), h.own⟩ }

end Keep

/-- **Every step keeps the invariant.** -/
theorem SlotStep.slotOk {busy : J → Bool} {s s' : Slot J} {a : Act J} {tr ev : List Event}
    (hs : SlotStep busy s a ev s') (h : SlotOk busy tr s) : SlotOk busy (ev ++ tr) s' := by
  cases hs with
  | join => exact h.join
  | claim i record hi hrest hbusy => exact h.claim hi hrest hbusy
  | refuse i => exact h.refuse i
  | write i n record hi hbusy => exact h.write hi hbusy
  | finish i n record hi hrest => exact h.finish hi hrest
  | abandon i n hi => exact h.abandon hi

theorem slotOk_of_run {busy : J → Bool} {tr : List Event} {s : Slot J}
    (h : (slot busy).Run Anything tr s) : SlotOk busy tr s := by
  refine h.invariant (I := SlotOk busy) ?_ ?_
  · rintro s ⟨hrest, -, hnone⟩
    have hnobody : ∀ i n, ¬ s.Holds i n := fun i n hi => by
      rw [Slot.Holds, hnone] at hi
      exact absurd hi (by simp)
    exact
      { current := fun i n hi => absurd hi (hnobody i n)
        unique := fun i j n m hi => absurd hi (hnobody i n)
        closed := fun i n he => absurd he List.not_mem_nil
        owned := fun hb => by
          rw [hrest] at hb
          exact absurd hb (by simp)
        forsaken := fun i n he => absurd he List.not_mem_nil
        own := fun e he => absurd he List.not_mem_nil }
  · intro tr s a s' ev _ _ hs hok
    exact (slotStep_cases hs).slotOk hok

/-! ## Systems with a slot -/

/-- The system is a slot, seen through `f`.  A step may use that a party works under a claim only
while the record is busy. -/
structure Managed {σ α : Type*} (busy : J → Bool) (S : EventSystem σ α Event) (f : σ → Slot J) :
    Prop where
  init : ∀ s, S.init s → (slot busy).init (f s)
  step : ∀ s a s' ev, (∀ i n, (f s).Holds i n → busy (f s).record = true) →
    S.step s a = some (s', ev) →
    (f s' = f s ∧ ev = []) ∨ ∃ b, slotStep busy (f s) b = some (f s', ev)

/-- **One claimant at a time**: at most one party works under a claim; a claim comes after the
last write of every earlier one; a refusal changes nothing; every write is one under the claim
that created the record; and a record at rest changes only when it is claimed. -/
structure OneClaimant {σ α : Type*} (busy : J → Bool) (S : EventSystem σ α Event)
    (f : σ → Slot J) : Prop where
  unique : ∀ tr s, S.Run Anything tr s → ∀ i j n m, (f s).Holds i n → (f s).Holds j m → i = j
  exclusive : ∀ tr s, S.Run Anything tr s → Each ClaimsAfter tr
  refusals : ∀ tr s a s' ev i, S.Run Anything tr s → S.step s a = some (s', ev) →
    .refused i ∈ ev → f s' = f s
  own : ∀ tr s, S.Run Anything tr s → ∀ e ∈ tr, OwnWrite e
  rests : ∀ tr s a s' ev, S.Run Anything tr s → S.step s a = some (s', ev) →
    busy (f s).record = false → (∀ i n, .claimed i n ∉ ev) → (f s').record = (f s).record

namespace Managed

variable {σ α : Type*} {busy : J → Bool} {S : EventSystem σ α Event} {f : σ → Slot J}

/-- A run of the system is a run of its slot. -/
theorem run (h : Managed busy S f) {ok : List Event → σ → α → Prop} {tr : List Event} {s : σ}
    (hr : S.Run ok tr s) : (slot busy).Run Anything tr (f s) := by
  induction hr with
  | start hs => exact .start (h.init _ hs)
  | next _ _ hs ih =>
    have hok := slotOk_of_run ih
    rcases h.step _ _ _ _ (fun i n hi => (hok.current i n hi).2) hs with ⟨hstay, rfl⟩ | ⟨b, hb⟩
    · rw [hstay]
      exact ih
    · exact .next ih trivial hb

/-- A step of the system that shows something is a step of its slot. -/
theorem slotStep (h : Managed busy S f) {ok : List Event → σ → α → Prop} {tr ev : List Event}
    {s s' : σ} {a : α} (hr : S.Run ok tr s) (hs : S.step s a = some (s', ev)) :
    (f s' = f s ∧ ev = []) ∨ ∃ b, SlotStep busy (f s) b ev (f s') := by
  have hok := slotOk_of_run (h.run hr)
  refine (h.step s a s' ev (fun i n hi => (hok.current i n hi).2) hs).imp_right ?_
  exact fun ⟨b, hb⟩ => ⟨b, slotStep_cases hb⟩

/-- **The record has its claimant** exactly when none went away. -/
theorem owned_iff (h : Managed busy S f) {ok : List Event → σ → α → Prop} {tr : List Event}
    {s : σ} (hr : S.Run ok tr s) :
    (busy (f s).record = true → ∃ i, (f s).Holds i (f s).gen) ↔ ∀ i n, .abandoned i n ∉ tr := by
  have hok := slotOk_of_run (h.run hr)
  constructor
  · intro howned i n he
    obtain ⟨hbusy, hnobody⟩ := hok.forsaken i n he
    obtain ⟨j, hj⟩ := howned hbusy
    exact hnobody j _ hj
  · intro hnone hbusy
    rcases hok.owned hbusy with ⟨i, n, hi⟩ | ⟨i, n, he⟩
    · obtain rfl := (hok.current i n hi).1
      exact ⟨i, hi⟩
    · exact absurd he (hnone i n)

/-- Once its claimant has gone away the record is busy for good. -/
theorem busy_of_abandoned (h : Managed busy S f) {ok : List Event → σ → α → Prop}
    {tr : List Event} {s : σ} (hr : S.Run ok tr s) {i n : ℕ} (he : .abandoned i n ∈ tr) :
    busy (f s).record = true := ((slotOk_of_run (h.run hr)).forsaken i n he).1

/-- **The system has one claimant at a time.** -/
theorem oneClaimant (h : Managed busy S f) : OneClaimant busy S f where
  unique := fun _ _ hr => (slotOk_of_run (h.run hr)).unique
  exclusive := by
    intro tr s hr
    refine hr.each fun tr s a s' ev hr' _ hs hbefore => ?_
    have hok := slotOk_of_run (h.run hr')
    have hother : (∀ i n, .claimed i n ∉ ev) → Each ClaimsAfter (ev ++ tr) := fun hev =>
      hbefore.append fun e he before i n heq => absurd (heq ▸ he) (hev i n)
    rcases h.slotStep hr' hs with ⟨-, rfl⟩ | ⟨b, hb⟩
    · exact hbefore
    · generalize f s' = t' at hb
      cases hb with
      | claim i record hi hrest hbusy =>
        refine ⟨fun j n _ k m he => ?_, hbefore⟩
        rcases hok.closed k m he with hclosed | ⟨-, hb⟩
        · exact hclosed
        · rw [hrest] at hb
          exact absurd hb (by simp)
      | join => exact hother (by simp)
      | refuse i => exact hother (by simp)
      | write i n record hi => exact hother (by simp)
      | finish i n record hi => exact hother (by simp)
      | abandon i n hi => exact hother (by simp)
  refusals := by
    intro tr s a s' ev i hr hs he
    rcases h.slotStep hr hs with ⟨hstay, -⟩ | ⟨b, hb⟩
    · exact hstay
    · generalize f s' = t' at hb ⊢
      cases hb with
      | refuse j => rfl
      | join => exact absurd he List.not_mem_nil
      | claim j record | write j n record | finish j n record | abandon j n =>
        exact absurd (List.mem_singleton.mp he) (by simp)
  own := fun _ _ hr => (slotOk_of_run (h.run hr)).own
  rests := by
    intro tr s a s' ev hr hs hrest hev
    have hok := slotOk_of_run (h.run hr)
    rcases h.slotStep hr hs with ⟨hstay, -⟩ | ⟨b, hb⟩
    · rw [hstay]
    · exact hb.record_of_rest (fun i n hi => (hok.current i n hi).2) hrest hev

end Managed

end ClaimedRecord
