/-
# The rebuild job (`rebuild.rs`)

`RebuildManager::start` claims the job, asks git for the current commit, notes it in the job
and starts the task; both the question and the second lock are awaits after the claim.  The
task pulls and builds, and writes the outcome in one section; the mutex of the job is kept
while the build is entered in the history.
-/
import LlmCtl.JobManager
import Mathlib.Data.Rat.Defs

namespace LlmCtl

open EventSystem ClaimedRecord

/-! ## The job -/

/-- `Job` of `rebuild.rs`. -/
structure RebuildJob where
  status : JobStatus
  startedAt : Option ℚ
  finishedAt : Option ℚ
  beforeSha : Option String
  afterSha : Option String
  error : Option String
  log : List String
  deriving DecidableEq

/-- `BuildRecord`. -/
structure BuildRecord where
  at_ : ℚ
  beforeSha : Option String
  afterSha : Option String
  ok : Bool
  deriving DecidableEq

namespace RebuildJob

/-- `LOG_CAP`. -/
def logCap : ℕ := 800

def running (j : RebuildJob) : Bool := decide (j.status = .running)

/-- The job of a new manager. -/
def idle : RebuildJob := ⟨.idle, none, none, none, none, none, []⟩

/-- The job of a claim. -/
def claimed (now : ℚ) : RebuildJob := ⟨.running, some now, none, none, none, none, []⟩

def noteSha (j : RebuildJob) (sha : Option String) : RebuildJob := { j with beforeSha := sha }

/-- The end of the job, as the task writes it. -/
def finish (j : RebuildJob) (now : ℚ) (afterSha : Option String) (pullOk buildOk : Bool)
    (lines : List String) : RebuildJob :=
  let j := { j with
    log := lines.foldl (pushLine logCap) j.log, finishedAt := some now, afterSha := afterSha }
  if pullOk && buildOk then
    { j with
      status := .ok
      log := pushLine logCap j.log "rebuild ok; relaunch the worker to pick up the new binary" }
  else
    { j with
      status := .failed
      error := some ("pull_ok=" ++ toString pullOk ++ " build_ok=" ++ toString buildOk) }

/-- After its end the job does not run. -/
theorem finish_running (j : RebuildJob) (now : ℚ) (afterSha : Option String)
    (pullOk buildOk : Bool) (lines : List String) :
    (j.finish now afterSha pullOk buildOk lines).running = false := by
  unfold finish
  split <;> rfl

end RebuildJob

/-- The history with a new build: newest first, at most twenty. -/
def insertBuild (history : List BuildRecord) (r : BuildRecord) : List BuildRecord :=
  (r :: history).take 20

/-! ## Program points -/

/-- Program points of `RebuildManager::start` and, from `pull` on, of its task. -/
inductive RebuildPc where
  | claim
  | gitSha
  | before (sha : Option String)
  | handOver (sha : Option String)
  | pull (beforeSha : Option String)
  | build (beforeSha : Option String) (pullOk : Bool) (log : List String)
  | afterSha (beforeSha : Option String) (pullOk buildOk : Bool) (log : List String)
  | finish (beforeSha : Option String) (pullOk buildOk : Bool) (log : List String)
      (afterSha : Option String)
  /-- The task keeps the mutex of the job and waits for that of the history. -/
  | history (beforeSha afterSha : Option String) (ok : Bool)
  | ended
  | refused (e : String)
  | dropped
  deriving DecidableEq

namespace RebuildPc

/-- Is `start` at an await?  The section that notes the commit is followed by the hand-over
without any. -/
def atAwait : RebuildPc → Bool
  | .claim | .gitSha | .before _ => true
  | _ => false

/-- Is the job claimed and its end still to be written? -/
def holds : RebuildPc → Bool
  | .gitSha | .before _ | .handOver _ | .pull _ | .build _ _ _ | .afterSha _ _ _ _
  | .finish _ _ _ _ _ => true
  | .claim | .history _ _ _ | .ended | .refused _ | .dropped => false

end RebuildPc

/-- What the environment says: the clock, a commit, or how a command ended. -/
inductive RebuildEnv where
  | next (now : ℚ)
  | sha (sha : Option String)
  | ran (ok : Bool) (lines : List String)

abbrev RebuildManager := JobManager RebuildJob RebuildPc (List BuildRecord)

/-! ## The steps -/

/-- One step of `start` or its task.  A section waits while another task keeps the mutex. -/
def rebuildGo (m : RebuildManager) (i : ℕ) (c : Start RebuildPc) :
    RebuildEnv → Option (RebuildManager × List Event)
  | .next now =>
    match c.pc with
    | .claim =>
      if m.lockedBy.isSome then none
      else if m.job.status = .running then
        some (m.setPc i (.refused "a rebuild is already running"), [.refused i])
      else some (m.claimJob i (.claimed now) .gitSha, [.claimed i (m.gen + 1)])
    | .before sha =>
      if m.lockedBy.isSome then none
      else some ((m.setJob (m.job.noteSha sha)).setPc i (.handOver sha),
        [.wrote i c.claim m.gen])
    | .handOver sha => some (m.setPc i (.pull sha), [])
    | .finish beforeSha pullOk buildOk log afterSha =>
      if m.lockedBy.isSome then none
      else some (((m.lock i).setJob (m.job.finish now afterSha pullOk buildOk log)).setPc i
        (.history beforeSha afterSha (pullOk && buildOk)), [.finished i c.claim m.gen])
    | .history beforeSha afterSha ok =>
      some ((m.unlock.setRest (insertBuild m.rest ⟨now, beforeSha, afterSha, ok⟩)).setPc i .ended,
        [])
    | _ => none
  | .sha sha =>
    match c.pc with
    | .gitSha => some (m.setPc i (.before sha), [])
    | .afterSha beforeSha pullOk buildOk log =>
      some (m.setPc i (.finish beforeSha pullOk buildOk log sha), [])
    | _ => none
  | .ran ok lines =>
    match c.pc with
    | .pull beforeSha => some (m.setPc i (.build beforeSha ok lines), [])
    | .build beforeSha pullOk log =>
      some (m.setPc i (.afterSha beforeSha pullOk ok (log ++ lines)), [])
    | _ => none

/-- `RebuildManager`. -/
def rebuildProgram : JobProgram RebuildJob RebuildPc (List BuildRecord) Unit RebuildEnv where
  init := fun m => m.job = .idle ∧ m.lockedBy = none ∧ m.gen = 0 ∧ m.starts = []
  running := RebuildJob.running
  enter := fun _ => .claim
  dropped := .dropped
  atAwait := RebuildPc.atAwait
  holds := RebuildPc.holds
  go := rebuildGo

/-- The rebuild manager as a system. -/
def rebuilds : EventSystem RebuildManager (JobAct Unit RebuildEnv) Event := rebuildProgram.system

/-! ## It is a claimed record -/

open JobProgram

theorem rebuildGo_moves {m m' : RebuildManager} {i : ℕ} {c : Start RebuildPc} {e : RebuildEnv}
    {ev : List Event} (hc : m.starts[i]? = some c)
    (hrun : c.pc.holds = true → m.job.running = true)
    (h : rebuildGo m i c e = some (m', ev)) : rebuildProgram.Moves m ev m' := by
  obtain ⟨pc, claim⟩ := c
  cases e with
  | next now =>
    cases pc with
    | claim =>
      simp only [rebuildGo] at h
      split at h
      · exact absurd h (by simp)
      · split at h
        · next hbusy =>
          cases h
          exact moves_refuse hc rfl (decide_eq_true hbusy)
        · next hrest =>
          cases h
          exact moves_claim hc rfl rfl (decide_eq_false hrest) rfl
    | before sha =>
      simp only [rebuildGo] at h
      split at h
      · exact absurd h (by simp)
      · cases h
        exact moves_write hc rfl rfl (hrun rfl)
    | handOver sha =>
      cases h
      exact moves_on hc rfl
    | finish beforeSha pullOk buildOk log afterSha =>
      simp only [rebuildGo] at h
      split at h
      · exact absurd h (by simp)
      · cases h
        exact moves_finish (p := rebuildProgram) (m := m.lock i) hc rfl rfl
          (m.job.finish_running _ _ _ _ _)
    | history beforeSha afterSha ok =>
      cases h
      exact moves_on (p := rebuildProgram) (m := m.unlock.setRest _) hc rfl
    | gitSha | pull | build | afterSha | ended | refused | dropped =>
      exact absurd h (by simp [rebuildGo])
  | sha sha =>
    cases pc with
    | gitSha | afterSha =>
      cases h
      exact moves_on hc rfl
    | _ => exact absurd h (by simp [rebuildGo])
  | ran ok lines =>
    cases pc with
    | pull | build =>
      cases h
      exact moves_on hc rfl
    | _ => exact absurd h (by simp [rebuildGo])

/-- **The rebuild manager is sound.** -/
theorem rebuildProgram_sound : rebuildProgram.Sound where
  init := by
    rintro m ⟨hjob, -, hgen, hstarts⟩
    refine ⟨?_, hgen, hstarts⟩
    rw [hjob]
    rfl
  enter := fun _ => rfl
  dropped := rfl
  go := fun _ _ _ _ _ _ hc hrun h => rebuildGo_moves hc hrun h

end LlmCtl
