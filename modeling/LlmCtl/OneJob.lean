/-
# One job at a time, and its owner

The claim protocol of the two managers keeps jobs apart: while one is running every other
`start` is refused, and every write goes to the job of the writer's own claim, whoever is
cancelled.  What it does not do is to give the job back: a `start` that is dropped after its
claim and before the hand-over leaves a job that runs for ever, and a manager that refuses
every later `start`.
-/
import LlmCtl.Download
import LlmCtl.Rebuild

namespace LlmCtl

open EventSystem ClaimedRecord JobProgram

/-! ## One job at a time -/

/-- **One job at a time**: the job is a claimed record with one claimant at a time, and a
`start` that finds it running, at the program point `claim`, returns the error `e` and changes
nothing. -/
structure OneJob {J P R Q E : Type*} (p : JobProgram J P R Q E) (atClaim : P → Prop) (tick : E)
    (refused : P) : Prop where
  claimant : OneClaimant p.running p.system p.view
  refusal : ∀ (m : JobManager J P R) (i : ℕ) (c : Start P), m.starts[i]? = some c →
    atClaim c.pc → m.lockedBy = none → p.running m.job = true →
    p.step m (.go i tick) = some (m.setPc i refused, [.refused i])

/-- **Both managers have one job at a time**, and no writes across jobs. -/
theorem one_job_at_a_time (hf : Hf) (unicode : Char → Bool) (now : ℚ) :
    OneJob (downloadProgram hf unicode) (fun pc => ∃ repo included, pc = .claim repo included)
        (.next now) (.refused "a download is already running") ∧
      OneJob rebuildProgram (fun pc => pc = .claim) (.next now)
        (.refused "a rebuild is already running") := by
  constructor
  · refine ⟨(downloadProgram_sound hf unicode).managed.oneClaimant, ?_⟩
    rintro m i ⟨pc, claim⟩ hc ⟨repo, included, rfl⟩ hlock hrun
    have hrunning : m.job.status = .running := of_decide_eq_true hrun
    simp only [JobProgram.step, hc, downloadProgram, downloadGo, hlock, hrunning,
      Option.isSome_none, Bool.false_eq_true, if_false, if_true]
  · refine ⟨rebuildProgram_sound.managed.oneClaimant, ?_⟩
    rintro m i ⟨pc, claim⟩ hc rfl hlock hrun
    have hrunning : m.job.status = .running := of_decide_eq_true hrun
    simp only [JobProgram.step, hc, rebuildProgram, rebuildGo, hlock, hrunning,
      Option.isSome_none, Bool.false_eq_true, if_false, if_true]

/-! ## The owner of a running job -/

/-- A running job has an owner exactly as long as no `start` was dropped while it held the
claim. -/
def OwnedUnlessAbandoned {J P R Q E : Type*} (p : JobProgram J P R Q E) : Prop :=
  ∀ (tr : List Event) (m : JobManager J P R), p.system.Run Anything tr m →
    ((p.running m.job = true → p.HasOwner m) ↔ ∀ i n, .abandoned i n ∉ tr)

theorem ownedUnlessAbandoned_of_sound {J P R Q E : Type*} {p : JobProgram J P R Q E}
    (h : p.Sound) : OwnedUnlessAbandoned p := by
  intro tr m hr
  rw [p.hasOwner_iff m]
  exact h.managed.owned_iff hr

/-- **A running job has an owner** in either manager, unless a `start` was dropped between its
claim and the hand-over. -/
theorem running_job_owned_iff (hf : Hf) (unicode : Char → Bool) :
    OwnedUnlessAbandoned (downloadProgram hf unicode) ∧
      OwnedUnlessAbandoned rebuildProgram :=
  ⟨ownedUnlessAbandoned_of_sound (downloadProgram_sound hf unicode),
    ownedUnlessAbandoned_of_sound rebuildProgram_sound⟩

/-- An abandoned job blocks its manager for good. -/
theorem running_of_abandoned {J P R Q E : Type*} {p : JobProgram J P R Q E} (h : p.Sound)
    {tr : List Event} {m : JobManager J P R} (hr : p.system.Run Anything tr m) {i n : ℕ}
    (he : .abandoned i n ∈ tr) : p.running m.job = true :=
  h.managed.busy_of_abandoned hr he

/-- An abandoned job has no owner. -/
theorem not_owned_of_abandoned {J P R Q E : Type*} {p : JobProgram J P R Q E} (h : p.Sound)
    {tr : List Event} {m : JobManager J P R} (hr : p.system.Run Anything tr m) {i n : ℕ}
    (he : .abandoned i n ∈ tr) :
    ¬ ∀ (tr : List Event) (m : JobManager J P R), p.system.Run Anything tr m →
      p.running m.job = true → p.HasOwner m := by
  intro hall
  exact (ownedUnlessAbandoned_of_sound h tr m hr).mp (hall tr m hr) i n he

/-- The managers as they begin. -/
def newRebuilds : RebuildManager := ⟨.idle, [], none, [], 0⟩

def newDownloads : DownloadManager := ⟨.idle, ⟨[], none⟩, none, [], 0⟩

def plainHf : Hf := { cache := "/cache" }

/-- No character beyond ASCII is alphanumeric. -/
def asciiOnly : Char → Bool := fun _ => false

/-- **A dropped `start` leaves a job without an owner**: the client of a rebuild leaves while
git is asked for the commit, and that of a download while the failed spawn is noted. -/
theorem dropped_start_leaves_job :
    (¬ ∀ (tr : List Event) (m : RebuildManager), rebuilds.Run Anything tr m →
        m.job.running = true → rebuildProgram.HasOwner m) ∧
      ¬ ∀ (tr : List Event) (m : DownloadManager),
        (downloads plainHf asciiOnly).Run Anything tr m → m.job.running = true →
          (downloadProgram plainHf asciiOnly).HasOwner m := by
  constructor
  · have hinit : rebuilds.init newRebuilds := ⟨rfl, rfl, rfl, rfl⟩
    have hreach := Run.reaches rebuilds Anything
      [.call (), .go 0 (.next 1), .drop 0] (fun tr _ => Event.abandoned 0 1 ∈ tr)
      hinit (admits_anything _ _ _) (by decide)
    obtain ⟨tr, m, hrun, hp⟩ := hreach
    exact not_owned_of_abandoned rebuildProgram_sound hrun (of_decide_eq_true hp)
  · have hinit : (downloads plainHf asciiOnly).init newDownloads := ⟨rfl, rfl, rfl, rfl⟩
    have hreach := Run.reaches (downloads plainHf asciiOnly) Anything
      [.call ⟨"org/model", none⟩, .go 0 (.next 1), .go 0 (.next 1),
        .go 0 (.spawnError "not found"), .drop 0]
      (fun tr _ => Event.abandoned 0 1 ∈ tr) hinit (admits_anything _ _ _) (by decide)
    obtain ⟨tr, m, hrun, hp⟩ := hreach
    exact not_owned_of_abandoned (downloadProgram_sound _ _) hrun (of_decide_eq_true hp)

end LlmCtl
