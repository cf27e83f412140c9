/-
# The log of a job (`download.rs`, `rebuild.rs`, `collect.rs`)

The lines of a command go through two buffers, the sink of its collectors and the log of the job,
each of which keeps the latest ones.  At the end of the job its log is the end of all that its
commands put out, in the order in which it was read, and of the message that is logged last.

As long as the commands run, the log is empty.
-/
import LlmCtl.JobOutput
import LlmCtl.Registration

namespace LlmCtl

open EventSystem ListTable ClaimedRecord CappedLog

/-! ## How the two programs log -/

section Rebuild

variable {m m' : RebuildManager} {i : ℕ} {c : Start RebuildPc} {ev : List Event}

/-- The message at the end of a rebuild that went well. -/
def rebuiltMessage : String := "rebuild ok; relaunch the worker to pick up the new binary"

/-- The message that a task logs in its last step. -/
def RebuildPc.closing : RebuildPc → List String
  | .finish _ pullOk buildOk _ _ => if pullOk && buildOk then [rebuiltMessage] else []
  | _ => []

def rebuildClosing (m : RebuildManager) (i : ℕ) (_ : RebuildEnv) : List String :=
  ((m.starts[i]?).map fun c => c.pc.closing).getD []

/-- The log of a rebuild: of the pull and the build, written at the end. -/
def rebuildLogging : Logging RebuildJob RebuildPc (List BuildRecord) RebuildEnv where
  log := RebuildJob.log
  gathered := fun
    | .gitSha | .before _ | .handOver _ | .pull _ => some []
    | .build _ _ log | .afterSha _ _ _ log | .finish _ _ _ log _ => some log
    | _ => none
  ran := fun
    | .build _ _ _ => 1
    | .afterSha _ _ _ _ | .finish _ _ _ _ _ => 2
    | _ => 0
  note := ["spawn failed"]
  closing := rebuildClosing
  total := fun n => n = 2
  closes := fun job closing => closing = if job.status = .ok then [rebuiltMessage] else []

theorem RebuildJob.finish_log (j : RebuildJob) (now : ℚ) (afterSha : Option String)
    (pullOk buildOk : Bool) (lines : List String) :
    (j.finish now afterSha pullOk buildOk lines).log
      = (lines ++ if pullOk && buildOk then [rebuiltMessage] else []).foldl (pushLine logCap)
          j.log := by
  rw [List.foldl_append, finish]
  cases pullOk && buildOk <;> rfl

theorem RebuildJob.finish_status (j : RebuildJob) (now : ℚ) (afterSha : Option String)
    (pullOk buildOk : Bool) (lines : List String) :
    (j.finish now afterSha pullOk buildOk lines).status
      = if pullOk && buildOk then .ok else .failed := by
  unfold finish
  split <;> rfl

theorem rebuildGo_log (hc : m.starts[i]? = some c) {e : RebuildEnv}
    (hawaits : rebuildCommands.awaits c.pc = false)
    (hrun : c.pc.holds = true → m.job.running = true) (h : rebuildGo m i c e = some (m', ev)) :
    LogStep rebuildProgram rebuildCommands rebuildLogging RebuildJob.over m i c m' ev
      (rebuildClosing m i e) := by
  obtain ⟨pc, claim⟩ := c
  have hclosing : rebuildClosing m i e = pc.closing := by
    rw [rebuildClosing, hc]
    rfl
  rw [hclosing]
  cases e with
  | next now =>
    simp only [rebuildGo] at h
    split at h
    · obtain ⟨-, h⟩ := free_of_section h
      split at h
      · obtain ⟨rfl, rfl⟩ := Prod.mk.inj (Option.some.inj h)
        exact .aside _ rfl rfl rfl rfl rfl rfl
      · next hbusy =>
        obtain ⟨rfl, rfl⟩ := Prod.mk.inj (Option.some.inj h)
        exact .claims _ _ rfl (decide_eq_false hbusy) rfl rfl rfl rfl rfl
    · obtain ⟨-, h⟩ := free_of_section h
      obtain ⟨rfl, rfl⟩ := Prod.mk.inj (Option.some.inj h)
      exact .on _ rfl rfl (hrun rfl) rfl rfl rfl rfl rfl
    · obtain ⟨rfl, rfl⟩ := Prod.mk.inj (Option.some.inj h)
      exact .on _ rfl rfl (hrun rfl) rfl rfl rfl rfl rfl
    · next beforeSha pullOk buildOk log afterSha =>
      obtain ⟨-, h⟩ := free_of_section h
      obtain ⟨rfl, rfl⟩ := Prod.mk.inj (Option.some.inj h)
      refine .ends _ rfl rfl rfl (RebuildJob.over_finish _ _ _ _ _ _) rfl ?_
        (RebuildJob.finish_log _ _ _ _ _ _) rfl
      show (if pullOk && buildOk then _ else _)
        = if (m.job.finish now afterSha pullOk buildOk log).status = .ok then _ else _
      rw [RebuildJob.finish_status]
      cases pullOk && buildOk <;> rfl
    · obtain ⟨rfl, rfl⟩ := Prod.mk.inj (Option.some.inj h)
      exact .aside _ rfl rfl rfl rfl rfl rfl
    · exact absurd h (by simp)
  | sha sha =>
    simp only [rebuildGo] at h
    split at h
    · obtain ⟨rfl, rfl⟩ := Prod.mk.inj (Option.some.inj h)
      exact .on _ rfl rfl (hrun rfl) rfl rfl rfl rfl rfl
    · obtain ⟨rfl, rfl⟩ := Prod.mk.inj (Option.some.inj h)
      exact .on _ rfl rfl (hrun rfl) rfl rfl rfl rfl rfl
    · exact absurd h (by simp)
  | ran ok lines =>
    simp only [rebuildGo] at h
    split at h
    · exact absurd hawaits (by simp [rebuildCommands])
    · exact absurd hawaits (by simp [rebuildCommands])
    · exact absurd h (by simp)

/-- The task of a rebuild keeps the lines of a command. -/
theorem rebuild_answers {ok : Bool} {lines : List String}
    (h : rebuildGo m i c (.ran ok lines) = some (m', ev)) :
    Answers rebuildProgram rebuildLogging m i c m' lines := by
  obtain ⟨pc, claim⟩ := c
  simp only [rebuildGo] at h
  split at h
  · obtain ⟨rfl, -⟩ := Prod.mk.inj (Option.some.inj h)
    exact ⟨_, [], rfl, rfl, rfl, rfl, rfl⟩
  · next beforeSha pullOk log =>
    obtain ⟨rfl, -⟩ := Prod.mk.inj (Option.some.inj h)
    exact ⟨_, log, rfl, rfl, rfl, rfl, rfl⟩
  · exact absurd h (by simp)

/-- **The logging of a rebuild is sound.** -/
theorem rebuildLogging_sound :
    rebuildLogging.Sound rebuildProgram rebuildCommands RebuildJob.over where
  cap := by decide
  note := by decide
  awaits := by
    intro pc h
    rcases rebuildCommands_awaits h with ⟨sha, rfl⟩ | ⟨sha, ok, log, rfl⟩ <;> rfl
  go := fun _ _ _ _ _ _ hc hawaits hrun h => rebuildGo_log hc hawaits hrun h
  answer := fun _ _ _ _ _ _ _ _ h => rebuild_answers h
  unspawned := by
    intro m i c e m' ev _ he h
    obtain rfl := Option.some.inj he
    exact rebuild_answers h

end Rebuild

section Download

variable {hf : Hf} {unicode : Char → Bool} {m m' : DownloadManager} {i : ℕ}
  {c : Start DownloadPc} {ev : List Event}

/-- The message for a new model. -/
def registeredMessage (id : String) : String := String.join ["registered model '", id, "'"]

/-- The message that a task logs in its last step. -/
def DownloadPc.closing (unicode : Char → Bool) (r : Registry) : DownloadPc → List String
  | .register _ path =>
    if r.knows (deriveId unicode path) then [] else [registeredMessage (deriveId unicode path)]
  | _ => []

def downloadClosing (unicode : Char → Bool) (m : DownloadManager) (i : ℕ) (_ : DownloadEnv) :
    List String :=
  ((m.starts[i]?).map fun c => c.pc.closing unicode m.rest).getD []

/-- The log of a download: written when the command has ended. -/
def downloadLogging (unicode : Char → Bool) :
    Logging DownloadJob DownloadPc Registry DownloadEnv where
  log := DownloadJob.log
  gathered := fun
    | .spawn _ | .spawnFailed _ | .child _ => some []
    | .finish _ _ log => some log
    | _ => none
  ran := fun
    | .finish _ _ _ | .resolve _ | .register _ _ => 1
    | _ => 0
  note := []
  closing := downloadClosing unicode
  total := fun n => n ≤ 1
  closes := fun job closing => closing = [] ∨
    ∃ id, job.registered = some id ∧ closing = [registeredMessage id]

theorem downloadGo_log (hc : m.starts[i]? = some c) {e : DownloadEnv}
    (hawaits : downloadCommands.awaits c.pc = false)
    (hrun : c.pc.holds = true → m.job.running = true)
    (h : downloadGo hf unicode m i c e = some (m', ev)) :
    LogStep (downloadProgram hf unicode) downloadCommands (downloadLogging unicode)
      DownloadJob.over m i c m' ev (downloadClosing unicode m i e) := by
  obtain ⟨pc, claim⟩ := c
  have hclosing : downloadClosing unicode m i e = pc.closing unicode m.rest := by
    rw [downloadClosing, hc]
    rfl
  rw [hclosing]
  cases e with
  | next now =>
    simp only [downloadGo] at h
    split at h
    · split at h
      · obtain ⟨rfl, rfl⟩ := Prod.mk.inj (Option.some.inj h)
        exact .aside _ rfl rfl rfl rfl rfl rfl
      · obtain ⟨rfl, rfl⟩ := Prod.mk.inj (Option.some.inj h)
        exact .aside _ rfl rfl rfl rfl rfl rfl
    · obtain ⟨-, h⟩ := free_of_section h
      split at h
      · obtain ⟨rfl, rfl⟩ := Prod.mk.inj (Option.some.inj h)
        exact .aside _ rfl rfl rfl rfl rfl rfl
      · next hbusy =>
        obtain ⟨rfl, rfl⟩ := Prod.mk.inj (Option.some.inj h)
        exact .claims _ _ rfl (decide_eq_false hbusy) rfl rfl rfl rfl rfl
    · obtain ⟨-, h⟩ := free_of_section h
      obtain ⟨rfl, rfl⟩ := Prod.mk.inj (Option.some.inj h)
      exact .ends _ rfl rfl rfl (.inr rfl) (Nat.zero_le 1) (.inl rfl) rfl rfl
    · next repo exit log =>
      obtain ⟨-, h⟩ := free_of_section h
      split at h
      · obtain ⟨rfl, rfl⟩ := Prod.mk.inj (Option.some.inj h)
        exact .writes _ log rfl rfl (hrun rfl) rfl rfl rfl rfl rfl rfl
      · obtain ⟨rfl, rfl⟩ := Prod.mk.inj (Option.some.inj h)
        refine .ends _ rfl rfl rfl (.inr rfl) le_rfl (.inl rfl) ?_ rfl
        show _ = (log ++ []).foldl _ _
        rw [List.append_nil]
        rfl
    · exact absurd h (by simp)
  | spawned =>
    simp only [downloadGo] at h
    split at h
    · obtain ⟨rfl, rfl⟩ := Prod.mk.inj (Option.some.inj h)
      exact .on _ rfl rfl (hrun rfl) rfl rfl rfl rfl rfl
    · exact absurd h (by simp)
  | spawnError e =>
    simp only [downloadGo] at h
    split at h
    · obtain ⟨rfl, rfl⟩ := Prod.mk.inj (Option.some.inj h)
      exact .on _ rfl rfl (hrun rfl) rfl rfl rfl rfl rfl
    · exact absurd h (by simp)
  | exited exit lines =>
    simp only [downloadGo] at h
    split at h
    · exact absurd hawaits (by simp [downloadCommands])
    · exact absurd h (by simp)
  | resolved path =>
    simp only [downloadGo] at h
    split at h
    · split at h
      · obtain ⟨rfl, rfl⟩ := Prod.mk.inj (Option.some.inj h)
        exact .on _ rfl rfl (hrun rfl) rfl rfl rfl rfl rfl
      · obtain ⟨rfl, rfl⟩ := Prod.mk.inj (Option.some.inj h)
        exact .ends _ rfl rfl rfl (.inr rfl) le_rfl (.inl rfl) rfl rfl
    · exact absurd h (by simp)
  | persisted written =>
    simp only [downloadGo] at h
    split at h
    · next repo path =>
      obtain ⟨rfl, rfl⟩ := Prod.mk.inj (Option.some.inj h)
      refine .ends .ended rfl rfl rfl (.inl rfl) le_rfl ?_ ?_ rfl
      · rw [DownloadPc.closing]
        cases m.rest.knows (deriveId unicode path) with
        | true => exact .inl rfl
        | false => exact .inr ⟨_, rfl, rfl⟩
      · show DownloadJob.log (m.job.register _ (!m.rest.knows (deriveId unicode path))) = _
        rw [DownloadPc.closing]
        cases m.rest.knows (deriveId unicode path) <;> rfl
    · exact absurd h (by simp)

/-- **The logging of a download is sound.** -/
theorem downloadLogging_sound (hf : Hf) (unicode : Char → Bool) :
    (downloadLogging unicode).Sound (downloadProgram hf unicode) downloadCommands
      DownloadJob.over where
  cap := by decide
  note := Nat.zero_le _
  awaits := by
    intro pc h
    obtain ⟨repo, rfl⟩ := downloadCommands_awaits h
    rfl
  go := fun _ _ _ _ _ _ hc hawaits hrun h => downloadGo_log hc hawaits hrun h
  answer := by
    rintro m i ⟨pc, claim⟩ exit lines m' ev hawaits h
    obtain ⟨repo, rfl⟩ := downloadCommands_awaits hawaits
    obtain ⟨rfl, -⟩ := Prod.mk.inj (Option.some.inj h)
    exact ⟨_, [], rfl, rfl, rfl, rfl, rfl⟩
  unspawned := fun _ _ _ _ _ _ _ he => absurd he (by simp [downloadCommands])

end Download

/-! ## The log at the end -/

/-- The download manager with the record of its commands. -/
def recordedDownloads (hf : Hf) (unicode : Char → Bool) :
    EventSystem (RecordedJob DownloadJob DownloadPc Registry) (WatchAct HfDownloadReq DownloadEnv)
      Event :=
  recorded (downloadProgram hf unicode) downloadCommands (downloadLogging unicode)

/-- The rebuild manager with the record of its commands. -/
def recordedRebuilds :
    EventSystem (RecordedJob RebuildJob RebuildPc (List BuildRecord)) (WatchAct Unit RebuildEnv)
      Event :=
  recorded rebuildProgram rebuildCommands rebuildLogging

/-- What was read of each command that ran is a merge of the lines that were written to its two
pipes. -/
def MergesStreams {J P R : Type*} (d : RecordedJob J P R) : Prop :=
  ∀ o : Output, .ran o ∈ d.done →
    Merge (Output.readable (o.written .out)) (Output.readable (o.written .err)) o.merged

theorem mergesStreams_of_complete {J P R : Type*} {d : RecordedJob J P R}
    (h : ∀ e ∈ d.done, e.Complete) : MergesStreams d := by
  intro o ho
  have hcomplete : o.Complete := h _ ho
  rw [← hcomplete .out, ← hcomplete .err]
  exact o.merge

/-- A job that was never started is not over. -/
theorem downloads_not_over (hf : Hf) (unicode : Char → Bool) :
    ∀ m, (downloadProgram hf unicode).init m → ¬ m.job.over := by
  rintro m ⟨hjob, -⟩ (hfinal | hfinal) <;> exact absurd hfinal (by rw [hjob]; decide)

theorem rebuilds_not_over : ∀ m, rebuildProgram.init m → ¬ m.job.over := by
  rintro m ⟨hjob, -⟩ (hfinal | hfinal) <;> exact absurd hfinal (by rw [hjob]; decide)

theorem downloadOutput_of_run {hf : Hf} {unicode : Char → Bool} {tr : List Event}
    {d : RecordedJob DownloadJob DownloadPc Registry}
    (h : (recordedDownloads hf unicode).Run Anything tr d) :
    OutputOk (downloadProgram hf unicode) downloadCommands (downloadLogging unicode)
      DownloadJob.over d :=
  outputOk_of_run (downloadProgram_sound hf unicode) (downloadCommands_sound hf unicode)
    (downloadLogging_sound hf unicode) (downloads_not_over hf unicode) h

theorem rebuildOutput_of_run {tr : List Event}
    {d : RecordedJob RebuildJob RebuildPc (List BuildRecord)}
    (h : recordedRebuilds.Run Anything tr d) :
    OutputOk rebuildProgram rebuildCommands rebuildLogging RebuildJob.over d :=
  outputOk_of_run rebuildProgram_sound rebuildCommands_sound rebuildLogging_sound
    rebuilds_not_over h

/-- **The log of a job at its end is the end of what its commands put out**, of a download of its
one command, and of a rebuild of the pull and then the build, and of the message that is logged
last. -/
theorem final_log_is_tail (hf : Hf) (unicode : Char → Bool) :
    (∀ tr d, (recordedDownloads hf unicode).Run Anything tr d → d.job.manager.job.over →
      d.job.manager.job.log = (d.merged ++ d.closing).rtake 500 ∧ d.done.length ≤ 1 ∧
        MergesStreams d ∧ (d.closing = [] ∨
          ∃ id, d.job.manager.job.registered = some id ∧ d.closing = [registeredMessage id])) ∧
      ∀ tr d, recordedRebuilds.Run Anything tr d → d.job.manager.job.over →
        ∃ pull build, d.done = [pull, build] ∧
          d.job.manager.job.log = (pull.lines ++ build.lines ++ d.closing).rtake 800 ∧
            MergesStreams d ∧
            d.closing = if d.job.manager.job.status = .ok then [rebuiltMessage] else [] := by
  constructor
  · intro tr d h hover
    obtain ⟨hlog, hcomplete, htotal, hcloses⟩ := (downloadOutput_of_run h).atEnd hover
    exact ⟨hlog, htotal, mergesStreams_of_complete hcomplete, hcloses⟩
  · intro tr d h hover
    obtain ⟨hlog, hcomplete, htotal, hcloses⟩ := (rebuildOutput_of_run h).atEnd hover
    obtain ⟨pull, build, hdone⟩ := List.length_eq_two.mp htotal
    refine ⟨pull, build, hdone, ?_, mergesStreams_of_complete hcomplete, hcloses⟩
    have hmerged : d.merged = pull.lines ++ build.lines := by
      rw [RecordedJob.merged, hdone]
      simp
    rw [← hmerged]
    exact hlog

/-- A command of a rebuild that writes a line to each pipe, of which that of the second pipe is
read first, and succeeds. -/
def chattyCommand (out err : String) : List (WatchAct Unit RebuildEnv) :=
  [.spawn 0, .proc 0 (.write .out (some out)), .proc 0 (.write .err (some err)),
    .task 0 (.collect .err), .task 0 (.collect .out), .proc 0 (.exit (some ⟨some 0⟩)),
    .task 0 (.collect .out), .task 0 (.collect .err), .task 0 .poll, .task 0 .poll, .task 0 .poll,
    .answer 0]

/-- A rebuild up to its first command. -/
def startRebuild : List (WatchAct Unit RebuildEnv) :=
  .manager (.call ()) ::
    [.next 1, .sha none, .next 1, .next 1].map fun e => .manager (.go 0 e)

theorem recordedRebuilds_init :
    recordedRebuilds.init ⟨⟨newRebuilds, fun _ => none⟩, [], .empty, []⟩ :=
  ⟨⟨⟨rfl, rfl, rfl, rfl⟩, rfl⟩, rfl, rfl, rfl⟩

theorem recordedDownloads_init (hf : Hf) (unicode : Char → Bool) :
    (recordedDownloads hf unicode).init ⟨⟨newDownloads, fun _ => none⟩, [], .empty, []⟩ :=
  ⟨⟨⟨rfl, rfl, rfl, rfl⟩, rfl⟩, rfl, rfl, rfl⟩

/-- A rebuild whose two commands write to both pipes. -/
theorem final_log_is_tail_rebuild :
    ∃ tr d pull build, recordedRebuilds.Run Anything tr d ∧ d.done = [pull, build] ∧
      d.job.manager.job.log = ["warning", "pulled", "deprecated", "built", rebuiltMessage] ∧
      d.job.manager.job.log = (pull.lines ++ build.lines ++ d.closing).rtake 800 := by
  obtain ⟨tr, d, h, hp⟩ := Run.reaches recordedRebuilds Anything
    (startRebuild ++ chattyCommand "pulled\n" "warning \n" ++
      chattyCommand "built\r\n" "deprecated" ++
      [.manager (.go 0 (.sha none)), .manager (.go 0 (.next 2))])
    (fun _ d => decide (d.job.manager.job.status = .ok ∧ d.job.manager.job.log
      = ["warning", "pulled", "deprecated", "built", rebuiltMessage]))
    recordedRebuilds_init (admits_anything _ _ _) (by decide)
  obtain ⟨hok, hlog⟩ := of_decide_eq_true hp
  obtain ⟨pull, build, hdone, htail, -⟩ :=
    (final_log_is_tail plainHf asciiOnly).2 tr d h (.inl hok)
  exact ⟨tr, d, pull, build, h, hdone, hlog, htail⟩

/-! ## The log before the end -/

section Live

variable {J P R Q E : Type*}

/-- **The log of the job is live**: it has the latest of the lines that were read of the command
that runs. -/
def LogIsLive (k : Commands P E) (g : Logging J P R E) (d : RecordedJob J P R) : Prop :=
  ∀ i r, d.job.runs i = some r →
    ∀ line ∈ d.current.merged.rtake k.cap, line ∈ g.log d.job.manager.job

/-- No line was read yet of the command that runs. -/
def NothingRead (d : RecordedJob J P R) : Prop :=
  ∀ i r, d.job.runs i = some r → d.current.merged = []

/-- No collector reads a line. -/
def NoLineRead (_ : List Event) (d : RecordedJob J P R) : WatchAct Q E → Prop
  | .task i (.collect s) => ∀ r ∈ d.job.runs i, Output.nextLine r s = none
  | _ => True

/-- The log is live just as long as nothing was read, and so it is in runs in which nothing is. -/
def LiveUnlessRead (p : JobProgram J P R Q E) (k : Commands P E) (g : Logging J P R E) : Prop :=
  (∀ tr d, (recorded p k g).Run Anything tr d → (LogIsLive k g d ↔ NothingRead d)) ∧
    ∀ tr d, (recorded p k g).Run NoLineRead tr d → LogIsLive k g d

variable {p : JobProgram J P R Q E} {k : Commands P E} {g : Logging J P R E} {final : J → Prop}
  {d : RecordedJob J P R} {tr : List Event}

/-- While a command runs, the log of the job is empty. -/
theorem log_eq_nil (hp : p.Sound) (hk : k.Sound p final) (hg : g.Sound p k final)
    (hnew : ∀ m, p.init m → ¬ final m.job) (h : (recorded p k g).Run Anything tr d) {i : ℕ}
    {r : CommandRun} (hr : d.job.runs i = some r) : g.log d.job.manager.job = [] := by
  obtain ⟨-, hi⟩ := WatchedJob.ok_of_run hk (job_of_run h) i r hr
  obtain ⟨c, hc, hawaits⟩ := (Option.any_eq_true _ _).mp hi
  obtain ⟨lines, hlines⟩ := Option.isSome_iff_exists.mp (hg.awaits _ hawaits)
  have hrec := (outputOk_of_run hp hk hg hnew h).holder i c hc (hk.holds _ hawaits)
  exact (hrec.kept lines hlines).1

theorem merged_proc (o : Output) (a : ProcAct) : (o.proc a).merged = o.merged := by
  cases a <;> rfl

/-- In runs in which no line is read there is none. -/
theorem merged_of_noLineRead (h : (recorded p k g).Run NoLineRead tr d) :
    d.current.merged = [] := by
  refine h.invariant (I := fun _ d => d.current.merged = []) ?_ ?_
  · rintro d ⟨-, -, hcurrent, -⟩
    rw [hcurrent]
    rfl
  · intro tr d a d' ev _ hquiet hs hnone
    obtain ⟨⟨w, evs⟩, -, heq⟩ := Option.map_eq_some_iff.mp hs
    obtain ⟨rfl, -⟩ := Prod.mk.inj heq
    cases a with
    | manager b =>
      cases b with
      | go i e =>
        show (d.after g w evs (.manager (.go i e) : WatchAct Q E)).current.merged = []
        rw [RecordedJob.after]
        split
        · rfl
        · exact hnone
      | call req => exact hnone
      | drop i => exact hnone
    | spawn i => rfl
    | unspawned i => exact hnone
    | answer i => rfl
    | proc i b => exact (merged_proc _ _).trans hnone
    | task i b =>
      show Output.merged (((d.job.runs i).map fun r => d.current.task r b).getD d.current) = []
      cases hr : d.job.runs i with
      | none => exact hnone
      | some r =>
        cases b with
        | collect s =>
          rw [Option.map_some, Option.getD_some, Output.task_of_nextLine (hquiet r hr), hnone]
        | poll => exact hnone
        | fire => exact hnone

/-- **The log is live just as long as nothing was read.** -/
theorem liveUnlessRead (hp : p.Sound) (hk : k.Sound p final) (hg : g.Sound p k final)
    (hnew : ∀ m, p.init m → ¬ final m.job) : LiveUnlessRead p k g := by
  refine ⟨fun tr d h => ⟨fun hlive i r hr => ?_, fun hnone i r hr line hline => ?_⟩,
    fun tr d h i r hr line hline => ?_⟩
  · -- the log is empty, so nothing was kept of the lines
    have hkept : d.current.merged.rtake k.cap = [] := by
      refine List.eq_nil_iff_forall_not_mem.mpr fun line hline => ?_
      have hlog := hlive i r hr line hline
      rw [log_eq_nil hp hk hg hnew h hr] at hlog
      exact absurd hlog List.not_mem_nil
    have hlen := congrArg List.length hkept
    rw [length_rtake, List.length_nil] at hlen
    refine List.length_eq_zero_iff.mp ?_
    have hcap := hg.cap
    omega
  · rw [hnone i r hr, List.rtake_nil] at hline
    exact absurd hline List.not_mem_nil
  · rw [merged_of_noLineRead h, List.rtake_nil] at hline
    exact absurd hline List.not_mem_nil

end Live

/-- **The log of a running job is live just as long as nothing was read of its command**, of a
download as of a rebuild. -/
theorem job_log_is_live_iff (hf : Hf) (unicode : Char → Bool) :
    LiveUnlessRead (downloadProgram hf unicode) downloadCommands (downloadLogging unicode) ∧
      LiveUnlessRead rebuildProgram rebuildCommands rebuildLogging := by
  constructor
  · exact liveUnlessRead (downloadProgram_sound hf unicode) (downloadCommands_sound hf unicode)
      (downloadLogging_sound hf unicode) (downloads_not_over hf unicode)
  · exact liveUnlessRead rebuildProgram_sound rebuildCommands_sound rebuildLogging_sound
      rebuilds_not_over

/-- A command that has written a line that is not read yet. -/
theorem job_log_is_live_iff_unread :
    ∃ tr d r, (recordedDownloads plainHf asciiOnly).Run NoLineRead tr d ∧
      d.job.runs 0 = some r ∧ (r.pipe .err).buffer = [some "10%\n"] ∧
      LogIsLive downloadCommands (downloadLogging asciiOnly) d := by
  obtain ⟨tr, d, h, hp⟩ := Run.reaches (recordedDownloads plainHf asciiOnly) NoLineRead
    (startDownload ++ [.proc 0 (.write .err (some "10%\n"))])
    (fun _ d => (d.job.runs 0).any fun r : CommandRun =>
      decide ((r.pipe .err).buffer = [some "10%\n"]))
    (recordedDownloads_init _ _)
    (admits_of_forall (by simp [startDownload, NoLineRead]) _ _) (by decide)
  obtain ⟨r, hr, hbuf⟩ := (Option.any_eq_true _ _).mp hp
  exact ⟨tr, d, r, h, hr, of_decide_eq_true hbuf,
    (job_log_is_live_iff plainHf asciiOnly).1.2 tr d h⟩

/-- **A line that was read is not in the log of the job**: `hf` reports its progress, and the job
shows nothing of it. -/
theorem progress_not_in_log :
    ¬ ∀ tr d, (recordedDownloads plainHf asciiOnly).Run Anything tr d →
      d.job.manager.job.running = true →
        LogIsLive downloadCommands (downloadLogging asciiOnly) d := by
  intro hall
  obtain ⟨tr, d, h, hp⟩ := Run.reaches (recordedDownloads plainHf asciiOnly) Anything
    (startDownload ++ [.proc 0 (.write .err (some "10%\n")), .task 0 (.collect .err)])
    (fun _ d => decide (d.current.merged = ["10%"] ∧ d.job.manager.job.log = [] ∧
      d.job.manager.job.running = true ∧ (d.job.runs 0).isSome = true))
    (recordedDownloads_init _ _) (admits_anything _ _ _) (by decide)
  obtain ⟨hread, hlog, hrunning, hsome⟩ := of_decide_eq_true hp
  obtain ⟨r, hr⟩ := Option.isSome_iff_exists.mp hsome
  have hmem := hall tr d h hrunning 0 r hr "10%" (by rw [hread]; decide)
  replace hmem : "10%" ∈ d.job.manager.job.log := hmem
  rw [hlog] at hmem
  exact absurd hmem List.not_mem_nil

end LlmCtl
