/-
# Managers of one background job (`rebuild.rs`, `download.rs`)

Both managers keep one `Job` behind a mutex.  `start` claims the job while it is not running
and hands it to a task; the task writes the job's end.  The client of `start` may leave at any
await of it: its future is dropped there.  A task runs on.

`JobManager` is the state that both have, and `JobProgram` what they do with it: a call of
`start` and the task that it starts are one entry of `starts`, whose program point belongs to
the task once the job is handed over.  A section under the mutex is one step unless it awaits
something; then the entry is noted as the holder of the mutex.
-/
import LlmCtl.ClaimedRecord

namespace LlmCtl

open EventSystem ListTable ClaimedRecord

/-! ## Jobs -/

/-- `Job::status`. -/
inductive JobStatus where
  | idle
  | running
  | ok
  | failed
  deriving DecidableEq, Repr

/-- `Job::push_line`: the log keeps the last `cap` lines. -/
def pushLine (cap : ℕ) (log : List String) (line : String) : List String :=
  (if cap ≤ log.length then log.drop (log.length - cap + 1) else log) ++ [line]

/-! ## The state -/

/-- A call of `start`, and its task.  `claim` is the number of the claim that it made, or zero;
the code does not have it. -/
structure Start (P : Type*) where
  pc : P
  claim : ℕ

/-- A manager: its job, what else it owns, the holder of the job's mutex over an await, the
calls, and the number of claims so far. -/
structure JobManager (J P R : Type*) where
  job : J
  rest : R
  lockedBy : Option ℕ
  starts : List (Start P)
  gen : ℕ

/-- What happens: a call comes in, an entry goes on, or the client of a call leaves. -/
inductive JobAct (Q E : Type*) where
  | call (req : Q)
  | go (i : ℕ) (e : E)
  | drop (i : ℕ)

variable {J P R Q E : Type*}

namespace JobManager

/-- Entry `i` goes to a program point. -/
def setPc (m : JobManager J P R) (i : ℕ) (pc : P) : JobManager J P R :=
  { m with starts := m.starts.modify i fun c => { c with pc := pc } }

/-- Entry `i` claims the job. -/
def claimJob (m : JobManager J P R) (i : ℕ) (job : J) (pc : P) : JobManager J P R :=
  { m with job := job, gen := m.gen + 1, starts := m.starts.modify i fun _ => ⟨pc, m.gen + 1⟩ }

def setJob (m : JobManager J P R) (job : J) : JobManager J P R := { m with job := job }

def setRest (m : JobManager J P R) (rest : R) : JobManager J P R := { m with rest := rest }

def lock (m : JobManager J P R) (i : ℕ) : JobManager J P R := { m with lockedBy := some i }

def unlock (m : JobManager J P R) : JobManager J P R := { m with lockedBy := none }

end JobManager

/-! ## What a manager does -/

/-- The program of a manager: where a call begins, where it may be dropped and to which point
it goes then, which points belong to a claimed job without an end, and the steps. -/
structure JobProgram (J P R Q E : Type*) where
  init : JobManager J P R → Prop
  running : J → Bool
  enter : Q → P
  dropped : P
  atAwait : P → Bool
  holds : P → Bool
  go : JobManager J P R → ℕ → Start P → E → Option (JobManager J P R × List Event)

namespace JobProgram

variable (p : JobProgram J P R Q E)

/-- One step of the manager. -/
def step (m : JobManager J P R) : JobAct Q E → Option (JobManager J P R × List Event)
  | .call req => some ({ m with starts := m.starts ++ [⟨p.enter req, 0⟩] }, [])
  | .go i e =>
    match m.starts[i]? with
    | some c => p.go m i c e
    | none => none
  | .drop i =>
    match m.starts[i]? with
    | some c =>
      if p.atAwait c.pc then
        some (m.setPc i p.dropped, if p.holds c.pc then [.abandoned i c.claim] else [])
      else none
    | none => none

/-- The manager as a system. -/
def system : EventSystem (JobManager J P R) (JobAct Q E) Event where
  init := p.init
  step := p.step

/-- The claim that an entry works under. -/
def hold (c : Start P) : Option ℕ := if p.holds c.pc then some c.claim else none

/-- **The manager as a claimed record.** -/
def view (m : JobManager J P R) : Slot J := ⟨m.job, m.gen, m.starts.map p.hold⟩

/-- Some entry works under the claim that created the job, and has its end still to write: a
call of `start` that goes on, or a task. -/
def HasOwner (m : JobManager J P R) : Prop :=
  ∃ (i : ℕ) (c : Start P), m.starts[i]? = some c ∧ p.holds c.pc = true ∧ c.claim = m.gen

/-- A step of the claimed record, or none. -/
def Moves (m : JobManager J P R) (ev : List Event) (m' : JobManager J P R) : Prop :=
  (p.view m' = p.view m ∧ ev = []) ∨
    ∃ b, slotStep p.running (p.view m) b = some (p.view m', ev)

/-- What the steps of a program must be like. -/
structure Sound : Prop where
  init : ∀ m, p.init m → p.running m.job = false ∧ m.gen = 0 ∧ m.starts = []
  enter : ∀ req, p.holds (p.enter req) = false
  dropped : p.holds p.dropped = false
  go : ∀ m i c e m' ev, m.starts[i]? = some c → (p.holds c.pc = true → p.running m.job = true) →
    p.go m i c e = some (m', ev) → p.Moves m ev m'

/-! ## Moves -/

section Moves

variable {p} {m : JobManager J P R} {i : ℕ} {c : Start P} {pc : P}

theorem hold_of_holds (h : p.holds c.pc = true) : p.hold c = some c.claim := by
  rw [hold, if_pos h]

theorem hold_of_not_holds (h : p.holds c.pc = false) : p.hold c = none := by
  rw [hold, if_neg (by simp [h])]

/-- The entry in the claimed record. -/
theorem view_holds (hc : m.starts[i]? = some c) : (p.view m).holds[i]? = some (p.hold c) := by
  rw [view, List.getElem?_map, hc]
  rfl

/-- The entry goes on under the same claim, or under none. -/
theorem view_setPc (hc : m.starts[i]? = some c) (hp : p.holds pc = p.holds c.pc) :
    p.view (m.setPc i pc) = p.view m := by
  have hmap : (m.setPc i pc).starts.map p.hold = m.starts.map p.hold :=
    map_modify_of_eq hc (by rw [hold, hp]; rfl)
  rw [view, hmap]
  rfl

/-- The entry no longer works under a claim. -/
theorem view_setPc_end (hc : m.starts[i]? = some c) (hp : p.holds pc = false) :
    p.view (m.setPc i pc) = (p.view m).setHold i none := by
  have hmap : (m.setPc i pc).starts.map p.hold = (m.starts.map p.hold).modify i fun _ => none := by
    have hnone : p.hold { c with pc := pc } = none := hold_of_not_holds hp
    rw [← hnone]
    exact map_modify hc
  rw [view, hmap]
  rfl

/-- The entry goes on without a write. -/
theorem moves_on (hc : m.starts[i]? = some c) (hp : p.holds pc = p.holds c.pc) :
    p.Moves m [] (m.setPc i pc) := .inl ⟨view_setPc hc hp, rfl⟩

/-- The entry is turned away. -/
theorem moves_refuse (hc : m.starts[i]? = some c) (hp : p.holds pc = p.holds c.pc)
    (hrun : p.running m.job = true) : p.Moves m [.refused i] (m.setPc i pc) := by
  refine .inr ⟨.refuse i, ?_⟩
  have hbusy : p.running (p.view m).record = true := hrun
  rw [slotStep, if_pos hbusy, view_setPc hc hp]

/-- The entry claims the job. -/
theorem moves_claim {job : J} (hc : m.starts[i]? = some c) (hp : p.holds c.pc = false)
    (hp' : p.holds pc = true) (hrest : p.running m.job = false) (hrun : p.running job = true) :
    p.Moves m [.claimed i (m.gen + 1)] (m.claimJob i job pc) := by
  refine .inr ⟨.claim i job, ?_⟩
  have hmap : (m.claimJob i job pc).starts.map p.hold
      = (m.starts.map p.hold).modify i fun _ => some (m.gen + 1) := by
    have hsome : p.hold ⟨pc, m.gen + 1⟩ = some (m.gen + 1) := hold_of_holds hp'
    rw [← hsome]
    exact map_modify (f := fun _ => ⟨pc, m.gen + 1⟩) hc
  have hview : p.view (m.claimJob i job pc)
      = Slot.setHold ⟨job, m.gen + 1, m.starts.map p.hold⟩ i (some (m.gen + 1)) := by
    rw [view, hmap]
    rfl
  have hnone : (p.view m).holds[i]? = some none := by
    rw [view_holds hc, hold_of_not_holds hp]
  have hrest' : p.running (p.view m).record = false := hrest
  rw [slotStep, hnone, hrest', hrun, hview]
  rfl

/-- The entry writes under its claim. -/
theorem moves_write {job : J} (hc : m.starts[i]? = some c) (hp : p.holds c.pc = true)
    (hp' : p.holds pc = true) (hrun : p.running job = true) :
    p.Moves m [.wrote i c.claim m.gen] ((m.setJob job).setPc i pc) := by
  refine .inr ⟨.write i job, ?_⟩
  have hsome : (p.view m).holds[i]? = some (some c.claim) := by
    rw [view_holds hc, hold_of_holds hp]
  rw [slotStep, hsome, view_setPc (m := m.setJob job) hc (hp'.trans hp.symm)]
  simp only [hrun, if_true]
  rfl

/-- The entry makes its last write. -/
theorem moves_finish {job : J} (hc : m.starts[i]? = some c) (hp : p.holds c.pc = true)
    (hp' : p.holds pc = false) (hrest : p.running job = false) :
    p.Moves m [.finished i c.claim m.gen] ((m.setJob job).setPc i pc) := by
  refine .inr ⟨.finish i job, ?_⟩
  have hsome : (p.view m).holds[i]? = some (some c.claim) := by
    rw [view_holds hc, hold_of_holds hp]
  rw [slotStep, hsome, view_setPc_end (m := m.setJob job) hc hp']
  simp only [hrest, Bool.not_false, if_true]
  rfl

end Moves

/-! ## Every manager is a claimed record -/

theorem Sound.managed {p : JobProgram J P R Q E} (h : p.Sound) :
    Managed p.running p.system p.view where
  init := by
    intro m hm
    obtain ⟨hrest, hgen, hstarts⟩ := h.init m hm
    have hnone : (p.view m).holds = [] := by rw [view, hstarts, List.map_nil]
    exact ⟨hrest, hgen, hnone⟩
  step := by
    intro m a m' ev hrun hs
    replace hs : p.step m a = some (m', ev) := hs
    cases a with
    | call req =>
      cases hs
      have hnone : p.hold ⟨p.enter req, 0⟩ = none := hold_of_not_holds (h.enter req)
      refine .inr ⟨.join, ?_⟩
      rw [slotStep, view, view, List.map_append, List.map_singleton, hnone]
    | go i e =>
      simp only [JobProgram.step] at hs
      split at hs
      · next c hc =>
        refine h.go m i c e m' ev hc (fun hp => hrun i c.claim ?_) hs
        rw [Slot.Holds, view_holds hc, hold_of_holds hp]
      · exact absurd hs (by simp)
    | drop i =>
      simp only [JobProgram.step] at hs
      split at hs
      · next c hc =>
        split at hs
        · cases hs
          by_cases hp : p.holds c.pc = true
          · have hsome : (p.view m).holds[i]? = some (some c.claim) := by
              rw [view_holds hc, hold_of_holds hp]
            refine .inr ⟨.abandon i, ?_⟩
            rw [slotStep, hsome, view_setPc_end hc h.dropped, if_pos hp]
          · have hnot : p.holds c.pc = false := by simpa using hp
            rw [if_neg hp]
            exact moves_on hc (h.dropped.trans hnot.symm)
        · exact absurd hs (by simp)
      · exact absurd hs (by simp)

/-- Whoever works under a claim has a running job. -/
theorem Sound.running_of_holds {p : JobProgram J P R Q E} (h : p.Sound) {tr : List Event}
    {m : JobManager J P R} (hr : p.system.Run Anything tr m) {i : ℕ} {c : Start P}
    (hc : m.starts[i]? = some c) (hholds : p.holds c.pc = true) : p.running m.job = true := by
  have hi : (p.view m).Holds i c.claim := by
    rw [Slot.Holds, view_holds hc, hold_of_holds hholds]
  exact ((slotOk_of_run (h.managed.run hr)).current i c.claim hi).2

/-- Whoever holds the claimed record is an owner of the job. -/
theorem hasOwner_iff (m : JobManager J P R) :
    p.HasOwner m ↔ ∃ i, (p.view m).Holds i (p.view m).gen := by
  constructor
  · rintro ⟨i, c, hc, hp, hclaim⟩
    refine ⟨i, ?_⟩
    rw [Slot.Holds, view_holds hc, hold_of_holds hp, hclaim]
    rfl
  · rintro ⟨i, hi⟩
    rw [Slot.Holds, view, List.getElem?_map, Option.map_eq_some_iff] at hi
    obtain ⟨c, hc, hn⟩ := hi
    have hp : p.holds c.pc = true := by
      by_contra hp
      rw [hold, if_neg hp] at hn
      exact absurd hn (by simp)
    rw [hold_of_holds hp] at hn
    exact ⟨i, c, hc, hp, Option.some.inj hn⟩

end JobProgram

end LlmCtl
