/-
# The download job (`download.rs`)

`DownloadManager::start` claims the job and spawns the command in one go, with no await in
between; only the note of a failed spawn waits for the mutex again.  The task waits for the
command, and then keeps the mutex of the job until the job's end: while the downloaded file is
looked up and while the list of models is locked.
-/
import LlmCtl.ConfigFile
import LlmCtl.JobManager
import LlmCtl.PersistModel
import Mathlib.Data.Rat.Defs

namespace LlmCtl

open EventSystem ClaimedRecord

/-! ## The job -/

/-- `Job` of `download.rs`; `included` is its field `include`. -/
structure DownloadJob where
  status : JobStatus
  repo : Option String
  included : Option String
  startedAt : Option ℚ
  finishedAt : Option ℚ
  error : Option String
  registered : Option String
  log : List String
  deriving DecidableEq

/-- `HfDownloadReq`. -/
structure HfDownloadReq where
  repo : String
  included : Option String
  deriving DecidableEq

/-- `ExitStatus`: the exit code, unless a signal ended the command. -/
structure ExitStatus where
  code : Option ℤ
  deriving DecidableEq, Repr

def ExitStatus.success (e : ExitStatus) : Bool := decide (e.code = some 0)

/-- `{:?}` of the exit codes. -/
def exitDebug : Option ExitStatus → String
  | none => "None"
  | some ⟨none⟩ => "Some(None)"
  | some ⟨some n⟩ => String.join ["Some(Some(", toString n, "))"]

namespace DownloadJob

/-- `LOG_CAP`. -/
def logCap : ℕ := 500

def running (j : DownloadJob) : Bool := decide (j.status = .running)

/-- The job of a new manager. -/
def idle : DownloadJob := ⟨.idle, none, none, none, none, none, none, []⟩

/-- The job of a claim. -/
def claimed (repo included : String) (now : ℚ) : DownloadJob :=
  ⟨.running, some repo, some included, some now, none, none, none, []⟩

/-- An end without success. -/
def fail (j : DownloadJob) (e : String) : DownloadJob :=
  { j with status := .failed, error := some e }

/-- The first writes of the task. -/
def collected (j : DownloadJob) (now : ℚ) (lines : List String) : DownloadJob :=
  { j with log := lines.foldl (pushLine logCap) j.log, finishedAt := some now }

/-- The end with a registered model; a line is logged when the model is new. -/
def register (j : DownloadJob) (id : String) (new : Bool) : DownloadJob :=
  { j with
    status := .ok
    registered := some id
    log := if new then pushLine logCap j.log (String.join ["registered model '", id, "'"])
      else j.log }

end DownloadJob

/-! ## Program points -/

/-- What the manager owns besides the job: the models, and the text of the configuration file,
if there is one. -/
structure Registry where
  models : List Model
  config : Option String

/-- Program points of `DownloadManager::start` and, from `child` on, of its task. -/
inductive DownloadPc where
  | enter (req : HfDownloadReq)
  | claim (repo included : String)
  | spawn (repo : String)
  | spawnFailed (e : String)
  | child (repo : String)
  | finish (repo : String) (exit : Option ExitStatus) (log : List String)
  /-- The task keeps the mutex of the job while the file is looked up. -/
  | resolve (repo : String)
  /-- The task keeps the mutex of the job and waits for that of the models. -/
  | register (repo path : String)
  | ended
  | refused (e : String)
  | dropped
  deriving DecidableEq

namespace DownloadPc

/-- Is `start` at an await? -/
def atAwait : DownloadPc → Bool
  | .claim _ _ | .spawnFailed _ => true
  | _ => false

/-- Is the job claimed and its end still to be written? -/
def holds : DownloadPc → Bool
  | .spawn _ | .spawnFailed _ | .child _ | .finish _ _ _ | .resolve _ | .register _ _ => true
  | .enter _ | .claim _ _ | .ended | .refused _ | .dropped => false

end DownloadPc

/-- What the environment says: the clock, how the command was spawned and ended, where the
downloaded file is, and whether the configuration could be written. -/
inductive DownloadEnv where
  | next (now : ℚ)
  | spawned
  | spawnError (e : String)
  | exited (exit : Option ExitStatus) (lines : List String)
  | resolved (path : Option String)
  | persisted (written : Bool)

abbrev DownloadManager := JobManager DownloadJob DownloadPc Registry

/-! ## The steps -/

/-- The registration: a new model is pushed, and appended to the configuration file if this can
be written. -/
def Registry.add (r : Registry) (id path desc : String) (written : Bool) : Registry where
  models := r.models ++ [⟨id, path, false, desc⟩]
  config := if written then r.config.map fun text => persistModel text id path desc else r.config

/-- The last step of the task. -/
def registerStep (unicode : Char → Bool) (m : DownloadManager) (i : ℕ)
    (c : Start DownloadPc) (repo path : String) (written : Bool) :
    DownloadManager × List Event :=
  let id := deriveId unicode path
  let new := !m.rest.models.any fun x => x.id == id
  let rest := if new then m.rest.add id path ("hf: " ++ repo) written else m.rest
  (((m.unlock.setRest rest).setJob (m.job.register id new)).setPc i .ended,
    [.finished i c.claim m.gen])

/-- One step of `start` or its task.  A section waits while another task keeps the mutex. -/
def downloadGo (hf : Hf) (unicode : Char → Bool) (m : DownloadManager) (i : ℕ)
    (c : Start DownloadPc) : DownloadEnv → Option (DownloadManager × List Event)
  | .next now =>
    match c.pc with
    | .enter req =>
      if hf.cli = [] then some (m.setPc i (.refused "hf.cli is empty in config"), [])
      else some (m.setPc i (.claim req.repo (req.included.getD "*.gguf")), [])
    | .claim repo included =>
      if m.lockedBy.isSome then none
      else if m.job.status = .running then
        some (m.setPc i (.refused "a download is already running"), [.refused i])
      else some (m.claimJob i (.claimed repo included now) (.spawn repo), [.claimed i (m.gen + 1)])
    | .spawnFailed e =>
      if m.lockedBy.isSome then none
      else some ((m.setJob (m.job.fail e)).setPc i (.refused e), [.finished i c.claim m.gen])
    | .finish repo exit log =>
      if m.lockedBy.isSome then none
      else if exit.any ExitStatus.success then
        some (((m.lock i).setJob (m.job.collected now log)).setPc i (.resolve repo),
          [.wrote i c.claim m.gen])
      else
        some ((m.setJob ((m.job.collected now log).fail ("hf download exit " ++ exitDebug exit))
          ).setPc i .ended, [.finished i c.claim m.gen])
    | _ => none
  | .spawned =>
    match c.pc with
    | .spawn repo => some (m.setPc i (.child repo), [])
    | _ => none
  | .spawnError e =>
    match c.pc with
    | .spawn _ => some (m.setPc i (.spawnFailed ("spawn failed: " ++ e)), [])
    | _ => none
  | .exited exit lines =>
    match c.pc with
    | .child repo => some (m.setPc i (.finish repo exit lines), [])
    | _ => none
  | .resolved path =>
    match c.pc with
    | .resolve repo =>
      match path with
      | some path => some (m.setPc i (.register repo path), [])
      | none =>
        some ((m.unlock.setJob (m.job.fail "resolved GGUF not found in HF cache")).setPc i .ended,
          [.finished i c.claim m.gen])
    | _ => none
  | .persisted written =>
    match c.pc with
    | .register repo path => some (registerStep unicode m i c repo path written)
    | _ => none

/-- `DownloadManager`. -/
def downloadProgram (hf : Hf) (unicode : Char → Bool) :
    JobProgram DownloadJob DownloadPc Registry HfDownloadReq DownloadEnv where
  init := fun m => m.job = .idle ∧ m.lockedBy = none ∧ m.gen = 0 ∧ m.starts = []
  running := DownloadJob.running
  enter := .enter
  dropped := .dropped
  atAwait := DownloadPc.atAwait
  holds := DownloadPc.holds
  go := downloadGo hf unicode

/-- The download manager as a system. -/
def downloads (hf : Hf) (unicode : Char → Bool) :
    EventSystem DownloadManager (JobAct HfDownloadReq DownloadEnv) Event :=
  (downloadProgram hf unicode).system

/-! ## It is a claimed record -/

open JobProgram

theorem downloadGo_moves {hf : Hf} {unicode : Char → Bool} {m m' : DownloadManager} {i : ℕ}
    {c : Start DownloadPc} {e : DownloadEnv} {ev : List Event} (hc : m.starts[i]? = some c)
    (hrun : c.pc.holds = true → m.job.running = true)
    (h : downloadGo hf unicode m i c e = some (m', ev)) :
    (downloadProgram hf unicode).Moves m ev m' := by
  obtain ⟨pc, claim⟩ := c
  cases e with
  | next now =>
    cases pc with
    | enter req =>
      simp only [downloadGo] at h
      split at h
      · cases h
        exact moves_on hc rfl
      · cases h
        exact moves_on hc rfl
    | claim repo included =>
      simp only [downloadGo] at h
      split at h
      · exact absurd h (by simp)
      · split at h
        · next hbusy =>
          cases h
          exact moves_refuse hc rfl (decide_eq_true hbusy)
        · next hrest =>
          cases h
          exact moves_claim hc rfl rfl (decide_eq_false hrest) rfl
    | spawnFailed e =>
      simp only [downloadGo] at h
      split at h
      · exact absurd h (by simp)
      · cases h
        exact moves_finish hc rfl rfl rfl
    | finish repo exit log =>
      simp only [downloadGo] at h
      split at h
      · exact absurd h (by simp)
      · split at h
        · cases h
          exact moves_write (p := downloadProgram hf unicode) (m := m.lock i) hc rfl rfl
            (hrun rfl)
        · cases h
          exact moves_finish hc rfl rfl rfl
    | spawn | child | resolve | register | ended | refused | dropped =>
      exact absurd h (by simp [downloadGo])
  | spawned =>
    cases pc with
    | spawn repo =>
      cases h
      exact moves_on hc rfl
    | _ => exact absurd h (by simp [downloadGo])
  | spawnError e =>
    cases pc with
    | spawn repo =>
      cases h
      exact moves_on hc rfl
    | _ => exact absurd h (by simp [downloadGo])
  | exited exit lines =>
    cases pc with
    | child repo =>
      cases h
      exact moves_on hc rfl
    | _ => exact absurd h (by simp [downloadGo])
  | resolved path =>
    cases pc with
    | resolve repo =>
      cases path with
      | some path =>
        cases h
        exact moves_on hc rfl
      | none =>
        cases h
        exact moves_finish (p := downloadProgram hf unicode) (m := m.unlock) hc rfl rfl rfl
    | _ => exact absurd h (by simp [downloadGo])
  | persisted written =>
    cases pc with
    | register repo path =>
      cases h
      exact moves_finish (p := downloadProgram hf unicode) (m := m.unlock.setRest _) hc rfl
        rfl rfl
    | _ => exact absurd h (by simp [downloadGo])

/-- **The download manager is sound.** -/
theorem downloadProgram_sound (hf : Hf) (unicode : Char → Bool) :
    (downloadProgram hf unicode).Sound where
  init := by
    rintro m ⟨hjob, -, hgen, hstarts⟩
    refine ⟨?_, hgen, hstarts⟩
    rw [hjob]
    rfl
  enter := fun _ => rfl
  dropped := rfl
  go := fun _ _ _ _ _ _ hc hrun h => downloadGo_moves hc hrun h

end LlmCtl
