/-
# The last rebuild and the history of builds (`rebuild.rs`, `main.rs`)

The panel shows the job of the rebuild manager and the history of builds side by side, and
`handle_status_rollup` reads them one after the other.  The task writes the job's end under the
mutex of the job, and keeps it while the build is entered in the history.

So whoever reads a job that has ended finds its build in the history: with the same commits and
the same outcome, as the newest one at that time, and later as long as there are not twenty newer
ones.  While a job runs nothing has been entered for it.
-/
import LlmCtl.BuildHistory
import LlmCtl.JobWatchdog

namespace LlmCtl

open EventSystem ListTable ClaimedRecord

/-! ## What the task knows -/

namespace RebuildPc

/-- Is the task at the point where it keeps the mutex of the job? -/
def records : RebuildPc → Bool
  | .history _ _ _ => true
  | _ => false

/-- The commit before the build, once it has been noted in the job. -/
def noted : RebuildPc → Option (Option String)
  | .handOver sha | .pull sha | .build sha _ _ | .afterSha sha _ _ _ | .finish sha _ _ _ _ =>
    some sha
  | _ => none

end RebuildPc

/-- The job has ended, and the build is its own. -/
structure RebuildJob.Records (j : RebuildJob) (r : BuildRecord) : Prop where
  ended : j.status = if r.ok then .ok else .failed
  beforeSha : r.beforeSha = j.beforeSha
  afterSha : r.afterSha = j.afterSha

/-- The end of a job, as the task enters it. -/
theorem RebuildJob.finish_records (j : RebuildJob) (now at_ : ℚ) (afterSha : Option String)
    (pullOk buildOk : Bool) (lines : List String) :
    (j.finish now afterSha pullOk buildOk lines).Records
      ⟨at_, j.beforeSha, afterSha, pullOk && buildOk⟩ := by
  cases hok : pullOk && buildOk with
  | true => constructor <;> simp [finish, hok]
  | false => constructor <;> simp [finish, hok]

/-- The job records what it records at any time. -/
theorem RebuildJob.Records.at {j : RebuildJob} {r : BuildRecord} (h : j.Records r) (now : ℚ) :
    j.Records { r with at_ := now } := ⟨h.ended, h.beforeSha, h.afterSha⟩

/-! ## The mutex of the job -/

/-- The mutex of the job is kept over an await by the task that enters its build, and by no
other. -/
def RecordsLocked (m : RebuildManager) : Prop :=
  ∀ i, m.lockedBy = some i ↔ ∃ c, m.starts[i]? = some c ∧ c.pc.records = true

section Mutex

variable {m m' : RebuildManager} {i : ℕ} {c d : Start RebuildPc} {e : RebuildEnv} {ev : List Event}

/-- Who keeps the mutex, after entry `i` has gone on. -/
theorem RecordsLocked.update (h : RecordsLocked m) (hupdate : Updates m.starts m'.starts i d)
    (hi : m'.lockedBy = some i ↔ d.pc.records = true)
    (hother : ∀ j, j ≠ i → (m'.lockedBy = some j ↔ m.lockedBy = some j)) : RecordsLocked m' := by
  intro j
  by_cases hji : j = i
  · subst hji
    rw [hi]
    constructor
    · exact fun hpc => ⟨d, hupdate.self, hpc⟩
    · rintro ⟨x, hx, hpc⟩
      obtain rfl : d = x := Option.some.inj (hupdate.self.symm.trans hx)
      exact hpc
  · rw [hother j hji, h j, hupdate.other j hji]

/-- An entry that does not keep the mutex goes on without it. -/
theorem RecordsLocked.keep (h : RecordsLocked m) (hc : m.starts[i]? = some c)
    (hupdate : Updates m.starts m'.starts i d) (hlock : m'.lockedBy = m.lockedBy)
    (hbefore : c.pc.records = false) (hafter : d.pc.records = false) : RecordsLocked m' := by
  refine h.update hupdate ?_ fun j _ => by rw [hlock]
  rw [hlock, h i, hafter]
  constructor
  · rintro ⟨x, hx, hpc⟩
    obtain rfl : c = x := Option.some.inj (hc.symm.trans hx)
    exact absurd (hbefore.symm.trans hpc) Bool.false_ne_true
  · exact fun hf => absurd hf Bool.false_ne_true

/-- **A step of `start` or its task keeps the mutex where it belongs.** -/
theorem RecordsLocked.go (h : RecordsLocked m) (hc : m.starts[i]? = some c)
    (hs : rebuildGo m i c e = some (m', ev)) : RecordsLocked m' := by
  obtain ⟨pc, claim⟩ := c
  cases e with
  | next now =>
    cases pc with
    | claim =>
      obtain ⟨-, hs⟩ := free_of_section hs
      split at hs
      · cases hs
        exact h.keep hc (updates_modify hc) rfl rfl rfl
      · cases hs
        exact h.keep hc (updates_modify hc) rfl rfl rfl
    | before sha =>
      obtain ⟨-, hs⟩ := free_of_section hs
      cases hs
      exact h.keep hc (updates_modify hc) rfl rfl rfl
    | handOver sha =>
      cases hs
      exact h.keep hc (updates_modify hc) rfl rfl rfl
    | finish beforeSha pullOk buildOk log afterSha =>
      obtain ⟨hfree, hs⟩ := free_of_section hs
      cases hs
      refine h.update (updates_modify hc) ⟨fun _ => rfl, fun _ => rfl⟩ fun j hji => ?_
      rw [hfree]
      exact ⟨fun hj => absurd (Option.some.inj hj).symm hji, fun hj => absurd hj (by simp)⟩
    | history beforeSha afterSha ok =>
      cases hs
      have hkept : m.lockedBy = some i := (h i).mpr ⟨_, hc, rfl⟩
      have hnone : ∀ j, (none : Option ℕ) ≠ some j := fun j hj => absurd hj (by simp)
      refine h.update (updates_modify hc) ?_ fun j hji => ?_
      · exact ⟨fun hj => absurd hj (hnone i), fun hf => absurd hf Bool.false_ne_true⟩
      · rw [hkept]
        exact ⟨fun hj => absurd hj (hnone j), fun hj => absurd (Option.some.inj hj).symm hji⟩
    | gitSha | pull | build | afterSha | ended | refused | dropped =>
      exact absurd hs (by simp [rebuildGo])
  | sha sha =>
    cases pc with
    | gitSha | afterSha =>
      cases hs
      exact h.keep hc (updates_modify hc) rfl rfl rfl
    | _ => exact absurd hs (by simp [rebuildGo])
  | ran ok lines =>
    cases pc with
    | pull | build =>
      cases hs
      exact h.keep hc (updates_modify hc) rfl rfl rfl
    | _ => exact absurd hs (by simp [rebuildGo])

end Mutex

/-! ## The stages of a job -/

/-- **Where the job is**: there is none, or it waits for git, is building, has ended and is being
entered in the history, or has been entered. -/
inductive RebuildStage (m : RebuildManager) : Prop
  | idle (hfree : m.lockedBy = none) (hjob : m.job = .idle)
  | asking (hfree : m.lockedBy = none) (now : ℚ) (hjob : m.job = .claimed now)
      (hpc : ∀ (i : ℕ) (c : Start RebuildPc), m.starts[i]? = some c → c.pc.holds = true →
        c.pc.noted = none)
  | building (hfree : m.lockedBy = none) (now : ℚ) (sha : Option String)
      (hjob : m.job = (RebuildJob.claimed now).noteSha sha)
      (hpc : ∀ (i : ℕ) (c : Start RebuildPc), m.starts[i]? = some c → c.pc.holds = true →
        c.pc.noted = some sha)
  | entering (i claim : ℕ) (r : BuildRecord) (hkept : m.lockedBy = some i)
      (hc : m.starts[i]? = some ⟨.history r.beforeSha r.afterSha r.ok, claim⟩)
      (hjob : m.job.Records r)
  | entered (hfree : m.lockedBy = none) (r : BuildRecord) (old : List BuildRecord)
      (hrest : m.rest = insertBuild old r) (hjob : m.job.Records r)

section Stage

variable {m m' : RebuildManager} {i : ℕ} {c d : Start RebuildPc} {e : RebuildEnv} {ev : List Event}

theorem RebuildJob.Records.not_running {j : RebuildJob} {r : BuildRecord} (h : j.Records r) :
    j.running = false := by
  rw [RebuildJob.running, h.ended]
  split <;> rfl

/-- A step that leaves the job, the history and the mutex alone, and the claim where it is. -/
theorem RebuildStage.keep (h : RebuildStage m) (hjob : m'.job = m.job) (hrest : m'.rest = m.rest)
    (hlock : m'.lockedBy = m.lockedBy)
    (hholder : ∀ (j : ℕ) (x : Start RebuildPc), m'.starts[j]? = some x → x.pc.holds = true →
      m.starts[j]? = some x)
    (hentry : ∀ (j : ℕ) (x : Start RebuildPc), m.starts[j]? = some x → x.pc.records = true →
      m'.starts[j]? = some x) : RebuildStage m' := by
  cases h with
  | idle hfree hidle => exact .idle (hlock.trans hfree) (hjob.trans hidle)
  | asking hfree now hclaimed hpc =>
    exact .asking (hlock.trans hfree) now (hjob.trans hclaimed) fun j x hx hh =>
      hpc j x (hholder j x hx hh) hh
  | building hfree now sha hclaimed hpc =>
    exact .building (hlock.trans hfree) now sha (hjob.trans hclaimed) fun j x hx hh =>
      hpc j x (hholder j x hx hh) hh
  | entering j claim r hkept hj hrecords =>
    exact .entering j claim r (hlock.trans hkept) (hentry j _ hj rfl) (hjob ▸ hrecords)
  | entered hfree r old hold hrecords =>
    exact .entered (hlock.trans hfree) r old (hrest.trans hold) (hjob ▸ hrecords)

/-- An entry that does not work under a claim goes on without one. -/
theorem RebuildStage.keep_setPc (h : RebuildStage m) (hc : m.starts[i]? = some c) {pc : RebuildPc}
    (hbefore : c.pc.records = false) (hafter : pc.holds = false) : RebuildStage (m.setPc i pc) := by
  have hupdate : Updates m.starts (m.setPc i pc).starts i { c with pc := pc } := updates_modify hc
  refine h.keep rfl rfl rfl ?_ ?_
  · intro j x hx hholds
    rcases hupdate.cases hx with ⟨-, rfl⟩ | ⟨-, hx⟩
    · exact absurd (hafter.symm.trans hholds) Bool.false_ne_true
    · exact hx
  · intro j x hx hrecords
    by_cases hji : j = i
    · subst hji
      obtain rfl : c = x := Option.some.inj (hc.symm.trans hx)
      exact absurd (hbefore.symm.trans hrecords) Bool.false_ne_true
    · exact (hupdate.other j hji).trans hx

/-- Whoever works under the claim knows what has been noted in the job. -/
theorem RebuildStage.of_holder (h : RebuildStage m) (hrunning : m.job.running = true)
    (hc : m.starts[i]? = some c) (hholds : c.pc.holds = true) :
    m.lockedBy = none ∧ ((c.pc.noted = none ∧ ∃ now, m.job = .claimed now) ∨
      ∃ now sha, c.pc.noted = some sha ∧ m.job = (RebuildJob.claimed now).noteSha sha) := by
  cases h with
  | idle hfree hidle =>
    rw [hidle] at hrunning
    exact absurd hrunning (by decide)
  | asking hfree now hjob hpc => exact ⟨hfree, .inl ⟨hpc i c hc hholds, now, hjob⟩⟩
  | building hfree now sha hjob hpc => exact ⟨hfree, .inr ⟨now, sha, hpc i c hc hholds, hjob⟩⟩
  | entering _ _ _ _ _ hjob | entered _ _ _ _ hjob =>
    exact absurd (hjob.not_running.symm.trans hrunning) Bool.false_ne_true

/-- Whoever works under the claim is entry `i`. -/
def OnlyBuilder (m : RebuildManager) (i : ℕ) : Prop :=
  ∀ (j : ℕ) (x : Start RebuildPc), m.starts[j]? = some x → x.pc.holds = true → j = i

/-- The entry that works under the claim goes on, and no other does. -/
theorem pc_of_onlyBuilder (honly : OnlyBuilder m i) {starts : List (Start RebuildPc)}
    (hupdate : Updates m.starts starts i d) {j : ℕ} {x : Start RebuildPc}
    (hx : starts[j]? = some x) (hholds : x.pc.holds = true) :
    x = d := by
  rcases hupdate.cases hx with ⟨-, rfl⟩ | ⟨hji, hx⟩
  · rfl
  · exact absurd (honly j x hx hholds) hji

/-- The task builds on. -/
theorem RebuildStage.build_on (h : RebuildStage m) (hc : m.starts[i]? = some c)
    (hrunning : m.job.running = true) (honly : OnlyBuilder m i) (hholds : c.pc.holds = true)
    {pc : RebuildPc} {sha : Option String} (hbefore : c.pc.noted = some sha)
    (hafter : pc.noted = some sha) : RebuildStage (m.setPc i pc) := by
  obtain ⟨hfree, ⟨hnone, -⟩ | ⟨now, sha', hsome, hjob⟩⟩ := h.of_holder hrunning hc hholds
  · exact absurd (hnone.symm.trans hbefore) (by simp)
  · obtain rfl : sha' = sha := Option.some.inj (hsome.symm.trans hbefore)
    refine .building hfree now sha' hjob fun j x hx hh => ?_
    rw [pc_of_onlyBuilder honly (updates_modify hc) hx hh]
    exact hafter

/-- **A step of `start` or its task keeps the stages.** -/
theorem RebuildStage.go (h : RebuildStage m) (hlocked : RecordsLocked m)
    (hc : m.starts[i]? = some c)
    (hrunning : ∀ (j : ℕ) (x : Start RebuildPc), m.starts[j]? = some x → x.pc.holds = true →
      m.job.running = true)
    (honly : c.pc.holds = true → OnlyBuilder m i)
    (hs : rebuildGo m i c e = some (m', ev)) : RebuildStage m' := by
  obtain ⟨pc, claim⟩ := c
  cases e with
  | next now =>
    cases pc with
    | claim =>
      obtain ⟨hfree, hs⟩ := free_of_section hs
      split at hs
      · cases hs
        exact h.keep_setPc hc rfl rfl
      · next hrest =>
        cases hs
        refine .asking hfree now rfl fun j x hx hh => ?_
        rcases (updates_modify hc).cases hx with ⟨-, rfl⟩ | ⟨-, hx⟩
        · rfl
        · exact absurd (of_decide_eq_true (hrunning j x hx hh)) hrest
    | before sha =>
      obtain ⟨hfree, hs⟩ := free_of_section hs
      cases hs
      obtain ⟨-, ⟨-, start, hjob⟩ | ⟨_, _, hsome, -⟩⟩ :=
        h.of_holder (hrunning i _ hc rfl) hc rfl
      · have hnoted : m.job.noteSha sha = (RebuildJob.claimed start).noteSha sha := by rw [hjob]
        refine .building hfree start sha hnoted fun j x hx hh => ?_
        rw [pc_of_onlyBuilder (honly rfl) (updates_modify hc) hx hh]
        rfl
      · exact absurd hsome (by simp [RebuildPc.noted])
    | handOver sha =>
      cases hs
      exact h.build_on hc (hrunning i _ hc rfl) (honly rfl) rfl rfl rfl
    | finish beforeSha pullOk buildOk log afterSha =>
      obtain ⟨-, hs⟩ := free_of_section hs
      cases hs
      obtain ⟨-, ⟨hnone, -⟩ | ⟨start, sha, hsome, hjob⟩⟩ :=
        h.of_holder (hrunning i _ hc rfl) hc rfl
      · exact absurd hnone (by simp [RebuildPc.noted])
      · have hsha : m.job.beforeSha = beforeSha := by
          rw [hjob]
          exact (Option.some.inj hsome).symm
        have hrecords := m.job.finish_records now now afterSha pullOk buildOk log
        rw [hsha] at hrecords
        exact .entering i claim ⟨now, beforeSha, afterSha, pullOk && buildOk⟩ rfl
          (JobManager.starts_setPc (m := m.lock i) hc _) hrecords
    | history beforeSha afterSha ok =>
      cases hs
      have hkept : m.lockedBy = some i := (hlocked i).mpr ⟨_, hc, rfl⟩
      cases h with
      | idle hfree _ | asking hfree _ _ _ | building hfree _ _ _ _ | entered hfree _ _ _ _ =>
        exact absurd (hfree.symm.trans hkept) (by simp)
      | entering j claim' r hkept' hj hjob =>
        obtain rfl : i = j := Option.some.inj (hkept.symm.trans hkept')
        obtain heq := Option.some.inj (hc.symm.trans hj)
        simp only [Start.mk.injEq, RebuildPc.history.injEq] at heq
        obtain ⟨⟨rfl, rfl, rfl⟩, -⟩ := heq
        exact .entered rfl _ m.rest rfl (hjob.at now)
    | gitSha | pull | build | afterSha | ended | refused | dropped =>
      exact absurd hs (by simp [rebuildGo])
  | sha sha =>
    cases pc with
    | gitSha =>
      cases hs
      obtain ⟨hfree, ⟨-, start, hjob⟩ | ⟨_, _, hsome, -⟩⟩ :=
        h.of_holder (hrunning i _ hc rfl) hc rfl
      · refine .asking hfree start hjob fun j x hx hh => ?_
        rw [pc_of_onlyBuilder (honly rfl) (updates_modify hc) hx hh]
        rfl
      · exact absurd hsome (by simp [RebuildPc.noted])
    | afterSha beforeSha pullOk buildOk log =>
      cases hs
      exact h.build_on hc (hrunning i _ hc rfl) (honly rfl) rfl rfl rfl
    | _ => exact absurd hs (by simp [rebuildGo])
  | ran ok lines =>
    cases pc with
    | pull beforeSha =>
      cases hs
      exact h.build_on hc (hrunning i _ hc rfl) (honly rfl) rfl rfl rfl
    | build beforeSha pullOk log =>
      cases hs
      exact h.build_on hc (hrunning i _ hc rfl) (honly rfl) rfl rfl rfl
    | _ => exact absurd hs (by simp [rebuildGo])

end Stage

/-! ## Every run -/

theorem recordsLocked_of_run {tr : List Event} {m : RebuildManager}
    (h : rebuilds.Run Anything tr m) : RecordsLocked m := by
  refine h.invariant (I := fun _ m => RecordsLocked m) ?_ ?_
  · rintro m ⟨-, hfree, -, hstarts⟩ i
    rw [hfree, hstarts]
    constructor
    · exact fun hi => absurd hi (by simp)
    · rintro ⟨c, hc, -⟩
      exact absurd hc (by simp)
  · intro tr m a m' ev _ _ hs hlocked
    simp only [rebuilds, JobProgram.system] at hs
    cases a with
    | call req =>
      cases hs
      intro i
      show m.lockedBy = some i ↔ _
      rw [hlocked i]
      constructor
      · rintro ⟨c, hc, hpc⟩
        exact ⟨c, getElem?_concat_of_some hc, hpc⟩
      · rintro ⟨c, hc, hpc⟩
        rcases getElem?_concat_cases hc with hc | ⟨-, rfl⟩
        · exact ⟨c, hc, hpc⟩
        · exact absurd hpc (by simp [rebuildProgram, RebuildPc.records])
    | go i e =>
      simp only [JobProgram.step] at hs
      split at hs
      · next c hc => exact hlocked.go hc hs
      · exact absurd hs (by simp)
    | drop i =>
      simp only [JobProgram.step] at hs
      split at hs
      · next c hc =>
        split at hs
        · next hawait =>
          cases hs
          refine hlocked.keep hc (updates_modify hc) rfl ?_ rfl
          replace hawait : c.pc.atAwait = true := hawait
          cases hpc : c.pc with
          | history b a ok => simp [hpc, RebuildPc.atAwait] at hawait
          | _ => rfl
        · exact absurd hs (by simp)
      · exact absurd hs (by simp)

/-- **Every job of a run is at a stage.** -/
theorem rebuildStage_of_run {tr : List Event} {m : RebuildManager}
    (h : rebuilds.Run Anything tr m) : RebuildStage m := by
  refine h.invariant (I := fun _ m => RebuildStage m) ?_ ?_
  · rintro m ⟨hjob, hfree, -, -⟩
    exact .idle hfree hjob
  · intro tr m a m' ev hr _ hs hstage
    have hp := rebuildProgram_sound
    have hrunning : ∀ (j : ℕ) (x : Start RebuildPc), m.starts[j]? = some x →
        x.pc.holds = true → m.job.running = true := fun j x hx hh => hp.running_of_holds hr hx hh
    simp only [rebuilds, JobProgram.system] at hs
    cases a with
    | call req =>
      cases hs
      refine hstage.keep rfl rfl rfl ?_ fun j x hx _ => getElem?_concat_of_some hx
      intro j x hx hh
      rcases getElem?_concat_cases hx with hx | ⟨-, rfl⟩
      · exact hx
      · exact absurd hh (by simp [rebuildProgram, RebuildPc.holds])
    | go i e =>
      simp only [JobProgram.step] at hs
      split at hs
      · next c hc =>
        exact hstage.go (recordsLocked_of_run hr) hc hrunning
          (fun hh j x hx hj => hp.unique hr hx hc hj hh) hs
      · exact absurd hs (by simp)
    | drop i =>
      simp only [JobProgram.step] at hs
      split at hs
      · next c hc =>
        split at hs
        · next hawait =>
          cases hs
          refine hstage.keep_setPc hc ?_ rfl
          replace hawait : c.pc.atAwait = true := hawait
          cases hpc : c.pc with
          | history b a ok => simp [hpc, RebuildPc.atAwait] at hawait
          | _ => rfl
        · exact absurd hs (by simp)
      · exact absurd hs (by simp)

/-! ## The history from then on -/

/-- **A step enters at most one build.** -/
theorem rebuilds_history {m m' : RebuildManager} {a : JobAct Unit RebuildEnv} {ev : List Event}
    (hs : rebuilds.step m a = some (m', ev)) :
    m'.rest = m.rest ∨ ∃ r, m'.rest = insertBuild m.rest r := by
  cases henters : entersHistory m a with
  | false => exact .inl (rebuilds_rest henters hs)
  | true =>
    unfold entersHistory at henters
    split at henters
    · next i now =>
      split at henters
      · next b s ok claim hc =>
        rw [history_step hc] at hs
        obtain ⟨rfl, -⟩ := Prod.mk.inj (Option.some.inj hs)
        exact .inr ⟨_, rfl⟩
      · exact absurd henters Bool.false_ne_true
    · exact absurd henters Bool.false_ne_true

/-- The history has become the newest twenty of some builds and those that were there. -/
def HistoryContinues (history later : List BuildRecord) : Prop :=
  ∃ newer, later = (newer ++ history).take 20

theorem HistoryContinues.step {history later : List BuildRecord}
    (h : HistoryContinues history later) (r : BuildRecord) :
    HistoryContinues history (insertBuild later r) := by
  obtain ⟨newer, rfl⟩ := h
  exact ⟨r :: newer, insertBuild_take _ r⟩

/-- **Runs that go on keep the newest builds.** -/
theorem continues_of_exec {m m' : RebuildManager} {as : List (JobAct Unit RebuildEnv)}
    {ev : List Event} (hx : rebuilds.exec m as = some (m', ev)) {history : List BuildRecord}
    (h : HistoryContinues history m.rest) : HistoryContinues history m'.rest := by
  refine exec_keeps (I := fun m => HistoryContinues history m.rest) ?_ hx h
  intro m a m' ev hs hm
  rcases rebuilds_history hs with hsame | ⟨r, hr⟩
  · exact hsame ▸ hm
  · exact hr ▸ hm.step r

/-! ## What the panel shows -/

/-- **A rebuild that has ended is in the history of builds.**  Whenever the job can be read and
has ended, the newest build of the history is its own; and a history that is read later, whatever
happens in between, still has it, unless twenty newer ones have been entered. -/
theorem ended_rebuild_in_history {tr ev : List Event} {m m' : RebuildManager}
    (h : rebuilds.Run Anything tr m) (hfree : m.lockedBy = none) (hover : m.job.over)
    {as : List (JobAct Unit RebuildEnv)} (hx : rebuilds.exec m as = some (m', ev)) :
    ∃ r old newer, m.job.Records r ∧ m.rest = r :: old ∧
      m'.rest = (newer ++ r :: old).take 20 := by
  cases rebuildStage_of_run h with
  | idle _ hjob =>
    rw [RebuildJob.over, hjob] at hover
    exact absurd hover (by decide)
  | asking _ _ hjob _ | building _ _ _ hjob _ =>
    rw [RebuildJob.over, hjob] at hover
    exact absurd hover (by simp [RebuildJob.claimed, RebuildJob.noteSha])
  | entering i _ _ hkept _ _ => exact absurd (hfree.symm.trans hkept) (by simp)
  | entered _ r old hrest hjob =>
    have hfull : HistoryContinues m.rest m.rest := ⟨[], by rw [hrest, insertBuild, List.nil_append,
      List.take_take, Nat.min_self]⟩
    obtain ⟨newer, hlater⟩ := continues_of_exec hx hfull
    have hhead : m.rest = r :: old.take 19 := hrest
    exact ⟨r, old.take 19, newer, hjob, hhead, hhead ▸ hlater⟩

/-- A whole rebuild by entry `i`, whose build ends as `ok` says. -/
def rebuildOf (i : ℕ) (ok : Bool) : List (JobAct Unit RebuildEnv) :=
  .call () :: [.next 1, .sha (some "a1"), .next 2, .next 3, .ran true [], .ran ok [],
    .sha none, .next 4, .next 5].map fun e => .go i e

/-- A failed rebuild is still in the history after the next one. -/
theorem ended_rebuild_in_history_failed :
    ∃ tr ev m m', rebuilds.Run Anything tr m ∧ rebuilds.exec m (rebuildOf 1 true) = some (m', ev) ∧
      m.job.status = .failed ∧ ∃ r old newer, m.job.Records r ∧ m.rest = r :: old ∧
        m'.rest = (newer ++ r :: old).take 20 := by
  have hinit : rebuilds.init (rebuildsWith []) := ⟨rfl, rfl, rfl, rfl⟩
  obtain ⟨tr, m, h, hp⟩ := Run.reaches rebuilds Anything (rebuildOf 0 false)
    (fun _ m => decide (m.lockedBy = none ∧ m.job.status = .failed) &&
      (rebuilds.exec m (rebuildOf 1 true)).isSome)
    hinit (admits_anything _ _ _) (by decide)
  obtain ⟨hm, hx⟩ := Bool.and_eq_true_iff.mp hp
  obtain ⟨hfree, hfailed⟩ := of_decide_eq_true hm
  obtain ⟨⟨m', ev⟩, hx⟩ := Option.isSome_iff_exists.mp hx
  exact ⟨tr, ev, m, m', h, hx, hfailed, ended_rebuild_in_history h hfree (.inr hfailed) hx⟩

end LlmCtl
