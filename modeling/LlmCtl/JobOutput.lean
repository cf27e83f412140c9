/-
# What the commands of a job put out

`RecordedJob` puts a record beside a manager with its commands: what each command of the job has
written to its pipes, and what the collectors have read of it, in the order in which they have
read it.  The code does not have this record.

As long as a command runs, the sink holds the end of what was read; the log of the job is filled
only after the last command of the job.
-/
import LlmCtl.CappedLog
import LlmCtl.JobWatchdog

namespace LlmCtl

open EventSystem ListTable ClaimedRecord CappedLog

/-! ## The output of a command -/

/-- What was written to the pipes of a command, and the lines in the order in which they were
read. -/
structure Output where
  written : StdStream → List (Option String)
  read : List (StdStream × String)

namespace Output

/-- A command that has put out nothing. -/
def empty : Output := ⟨fun _ => [], []⟩

/-- What was read, from both pipes. -/
def merged (o : Output) : List String := o.read.map Prod.snd

/-- What was read from one pipe. -/
def lines (o : Output) (s : StdStream) : List String :=
  (o.read.filter fun l => decide (l.1 = s)).map Prod.snd

/-- What a collector makes of the lines that are written: it gives up at one that is not UTF-8. -/
def readable : List (Option String) → List String
  | some line :: rest => trimEnd line :: readable rest
  | _ => []

/-- Both pipes were read to their ends. -/
def Complete (o : Output) : Prop := ∀ s, o.lines s = readable (o.written s)

/-- **What was read is a merge of what was read from the two pipes.** -/
theorem merge (o : Output) : Merge (o.lines .out) (o.lines .err) o.merged := by
  have herr : (o.read.filter fun l => decide (l.1 = .err))
      = o.read.filter fun l => !decide (l.1 = .out) := by
    refine List.filter_congr fun l _ => ?_
    cases l.1 <;> rfl
  rw [lines, lines, herr]
  exact merge_filter _ _ _

theorem readable_map (raw : List String) (rest : List (Option String))
    (h : readable rest = []) : readable (raw.map some ++ rest) = raw.map trimEnd := by
  induction raw with
  | nil => exact h
  | cons line raw ih => rw [List.map_cons, List.cons_append, readable, ih, List.map_cons]

/-- The line that a collector is about to read. -/
def nextLine (r : CommandRun) (s : StdStream) : Option String :=
  if (r.pipe s).collecting then
    match (r.pipe s).buffer with
    | some line :: _ => some (trimEnd line)
    | _ => none
  else none

/-- The record after a step of the task. -/
def task (o : Output) (r : CommandRun) : TaskAct → Output
  | .collect s => { o with read := o.read ++ ((nextLine r s).map fun l => (s, l)).toList }
  | .poll | .fire => o

/-- The record after a step of the processes. -/
def proc (o : Output) : ProcAct → Output
  | .write s line => { o with written := Function.update o.written s (o.written s ++ [line]) }
  | _ => o

end Output

/-! ## A command keeps its record -/

/-- What was written to a pipe is what was read and what is in the pipe; a collector that has
ended has given up or has come to the end. -/
def StreamRecord (r : CommandRun) (o : Output) (s : StdStream) : Prop :=
  ∃ (raw : List String) (rest : List (Option String)),
    o.lines s = raw.map trimEnd ∧ o.written s = raw.map some ++ rest ∧
    if (r.pipe s).collecting then rest = (r.pipe s).buffer
    else (∃ more, rest = none :: more) ∨ (rest = [] ∧ r.held s = false)

/-- The record of a command, with its sink. -/
structure RunRecord (cap : ℕ) (r : CommandRun) (o : Output) : Prop where
  sink : r.sink = o.merged.foldl (pushLine cap) []
  stream : ∀ s, StreamRecord r o s

section Run

variable {cap : ℕ} {r r' : CommandRun} {o : Output}

theorem runRecord_spawned (cap : ℕ) : RunRecord cap .spawned .empty where
  sink := rfl
  stream := fun _ => ⟨[], [], rfl, rfl, rfl⟩

/-- A write end that nobody holds is not held again. -/
theorem held_of_procStep {a : ProcAct} (hs : procStep r a = some r') {s : StdStream}
    (h : r.held s = false) : r'.held s = false := by
  obtain ⟨hchild, hothers⟩ := Bool.or_eq_false_iff.mp h
  rw [List.any_eq_false] at hothers
  cases a with
  | exit exit =>
    simp only [procStep] at hs
    split at hs
    · obtain rfl := Option.some.inj hs
      exact Bool.or_eq_false_iff.mpr ⟨rfl, List.any_eq_false.mpr hothers⟩
    · exact absurd hs (by simp)
  | fork =>
    simp only [procStep] at hs
    split at hs
    · next ends hc =>
      obtain rfl := Option.some.inj hs
      have hends : ends s = false := by simpa only [CommandRun.childHolds, hc] using hchild
      refine Bool.or_eq_false_iff.mpr ⟨hchild, List.any_eq_false.mpr fun e he => ?_⟩
      rcases List.mem_append.mp he with he | he
      · exact hothers e he
      · rw [List.mem_singleton.mp he, hends]
        exact Bool.false_ne_true
    · exact absurd hs (by simp)
  | forkOther n =>
    obtain ⟨ends, hends, rfl⟩ := Option.map_eq_some_iff.mp hs
    refine Bool.or_eq_false_iff.mpr ⟨hchild, List.any_eq_false.mpr fun e he => ?_⟩
    rcases List.mem_append.mp he with he | he
    · exact hothers e he
    · rw [List.mem_singleton.mp he]
      exact hothers ends (List.mem_of_getElem? hends)
  | close t =>
    simp only [procStep] at hs
    split at hs
    · next ends hc =>
      obtain rfl := Option.some.inj hs
      have hends : ends s = false := by simpa only [CommandRun.childHolds, hc] using hchild
      refine Bool.or_eq_false_iff.mpr ⟨?_, List.any_eq_false.mpr hothers⟩
      show Function.update ends t false s = false
      by_cases hst : s = t
      · rw [hst, Function.update_self]
      · rw [Function.update_of_ne hst, hends]
    · exact absurd hs (by simp)
  | closeOther n t =>
    obtain rfl := Option.some.inj hs
    refine Bool.or_eq_false_iff.mpr ⟨hchild, List.any_eq_false.mpr fun e he => ?_⟩
    obtain ⟨j, hj⟩ := List.mem_iff_getElem?.mp he
    rw [List.getElem?_modify] at hj
    obtain ⟨ends, hends, rfl⟩ := Option.map_eq_some_iff.mp hj
    have hold := hothers ends (List.mem_of_getElem? hends)
    split
    · by_cases hst : s = t
      · simp [hst]
      · simpa [Function.update_of_ne hst] using hold
    · exact hold
  | write t line =>
    simp only [procStep] at hs
    split at hs
    · obtain rfl := Option.some.inj hs
      exact h
    · exact absurd hs (by simp)

/-- The record of a pipe that neither side touches. -/
theorem StreamRecord.congr {o' : Output} {s : StdStream} (h : StreamRecord r o s)
    (hpipe : r'.pipe s = r.pipe s) (hheld : r.held s = false → r'.held s = false)
    (hlines : o'.lines s = o.lines s) (hwritten : o'.written s = o.written s) :
    StreamRecord r' o' s := by
  obtain ⟨raw, rest, hl, hw, hrest⟩ := h
  refine ⟨raw, rest, hlines.trans hl, hwritten.trans hw, ?_⟩
  rw [hpipe]
  split
  · next hcol => rwa [if_pos hcol] at hrest
  · next hcol =>
    rw [if_neg hcol] at hrest
    exact hrest.imp_right fun hend => ⟨hend.1, hheld hend.2⟩

/-- **The processes keep the record.** -/
theorem RunRecord.proc (h : RunRecord cap r o) {a : ProcAct} (hs : procStep r a = some r') :
    RunRecord cap r' (o.proc a) := by
  have hheld := fun s => held_of_procStep hs (s := s)
  cases a with
  | write s line =>
    simp only [procStep] at hs
    split at hs
    · next hwrite =>
      obtain rfl := Option.some.inj hs
      refine ⟨h.sink, fun t => ?_⟩
      by_cases hts : t = s
      · subst hts
        obtain ⟨raw, rest, hl, hw, hrest⟩ := h.stream t
        refine ⟨raw, rest ++ [line], hl, ?_, ?_⟩
        · show Function.update o.written t (o.written t ++ [line]) t = _
          rw [Function.update_self, hw, List.append_assoc]
        · rw [CommandRun.setPipe_self]
          split
          · next hcol =>
            rw [if_pos hcol] at hrest
            rw [hrest]
          · next hcol =>
            rw [if_neg hcol] at hrest
            rcases hrest with ⟨more, rfl⟩ | ⟨-, hend⟩
            · exact .inl ⟨more ++ [line], rfl⟩
            · exact absurd (hend.symm.trans hwrite) Bool.false_ne_true
      · exact (h.stream t).congr (CommandRun.setPipe_of_ne r _ hts) id rfl
          (Function.update_of_ne hts _ _)
    · exact absurd hs (by simp)
  | exit exit =>
    simp only [procStep] at hs
    split at hs
    · obtain rfl := Option.some.inj hs
      exact ⟨h.sink, fun t => (h.stream t).congr rfl (hheld t) rfl rfl⟩
    · exact absurd hs (by simp)
  | fork =>
    simp only [procStep] at hs
    split at hs
    · obtain rfl := Option.some.inj hs
      exact ⟨h.sink, fun t => (h.stream t).congr rfl (hheld t) rfl rfl⟩
    · exact absurd hs (by simp)
  | forkOther n =>
    obtain ⟨ends, -, rfl⟩ := Option.map_eq_some_iff.mp hs
    exact ⟨h.sink, fun t => (h.stream t).congr rfl (hheld t) rfl rfl⟩
  | close s =>
    simp only [procStep] at hs
    split at hs
    · obtain rfl := Option.some.inj hs
      exact ⟨h.sink, fun t => (h.stream t).congr rfl (hheld t) rfl rfl⟩
    · exact absurd hs (by simp)
  | closeOther n s =>
    obtain rfl := Option.some.inj hs
    exact ⟨h.sink, fun t => (h.stream t).congr rfl (hheld t) rfl rfl⟩

/-- A collector that ends at the end of its pipe or at a line that is not UTF-8. -/
theorem RunRecord.stop (h : RunRecord cap r o) {s : StdStream} {rest : List (Option String)}
    (hcol : (r.pipe s).collecting = true)
    (hend : (∃ more, (r.pipe s).buffer = none :: more) ∨
      ((r.pipe s).buffer = [] ∧ r.held s = false)) :
    RunRecord cap (r.setPipe s ⟨rest, false⟩) o := by
  refine ⟨h.sink, fun t => ?_⟩
  by_cases hts : t = s
  · subst hts
    obtain ⟨raw, rest', hl, hw, hrest⟩ := h.stream t
    rw [if_pos hcol] at hrest
    refine ⟨raw, rest', hl, hw, ?_⟩
    rw [CommandRun.setPipe_self, if_neg Bool.false_ne_true, hrest]
    exact hend
  · exact (h.stream t).congr (CommandRun.setPipe_of_ne _ _ hts) id rfl rfl

theorem Output.task_of_nextLine {s : StdStream} (h : Output.nextLine r s = none) :
    o.task r (.collect s) = o := by
  rw [Output.task, h, Option.map_none, Option.toList_none, List.append_nil]

/-- **A collector keeps the record.** -/
theorem RunRecord.collect (h : RunRecord cap r o) {s : StdStream}
    (hs : collectCapped cap r s = some r') : RunRecord cap r' (o.task r (.collect s)) := by
  obtain ⟨hcol, ⟨line, rest, hbuf, rfl⟩ | ⟨rest, hbuf, rfl⟩ | ⟨hbuf, hfree, rfl⟩⟩ :=
    CommandRun.collectCapped_cases hs
  · -- a line is read
    have hnext : Output.nextLine r s = some (trimEnd line) := by
      rw [Output.nextLine, if_pos hcol, hbuf]
    have htask : o.task r (.collect s) = { o with read := o.read ++ [(s, trimEnd line)] } := by
      rw [Output.task, hnext]
      rfl
    rw [htask]
    refine ⟨?_, fun t => ?_⟩
    · show pushLine cap r.sink (trimEnd line) = _
      rw [h.sink, Output.merged, Output.merged, List.map_append, List.foldl_append]
      rfl
    · by_cases hts : t = s
      · subst hts
        obtain ⟨raw, rest', hl, hw, hrest⟩ := h.stream t
        rw [if_pos hcol, hbuf] at hrest
        refine ⟨raw ++ [line], rest, ?_, ?_, ?_⟩
        · have hread : Output.lines { o with read := o.read ++ [(t, trimEnd line)] } t
              = o.lines t ++ [trimEnd line] := by
            simp [Output.lines]
          rw [hread, hl, List.map_append]
          rfl
        · rw [hw, hrest, List.map_append, List.append_assoc]
          rfl
        · rw [CommandRun.setPipe_self, if_pos rfl]
      · refine (h.stream t).congr (CommandRun.setPipe_of_ne _ _ hts) id ?_ rfl
        simp [Output.lines, Ne.symm hts]
  · -- it gives up
    rw [Output.task_of_nextLine (by rw [Output.nextLine, if_pos hcol, hbuf])]
    exact h.stop hcol (.inl ⟨rest, hbuf⟩)
  · -- it comes to the end
    rw [Output.task_of_nextLine (by rw [Output.nextLine, if_pos hcol, hbuf])]
    exact h.stop hcol (.inr ⟨hbuf, hfree⟩)

/-- The kill frees what the child holds, and gives nothing to anybody. -/
theorem held_of_poll (hs : taskStep cap r .poll = some r') {s : StdStream}
    (h : r.held s = false) : r'.held s = false := by
  obtain ⟨hchild, hothers⟩ := Bool.or_eq_false_iff.mp h
  obtain ⟨-, hsame, -, hcase⟩ := CommandRun.poll_cases hs
  rw [CommandRun.held, hsame, hothers, Bool.or_false]
  have hkept : r'.child = r.child → r'.childHolds s = false := by
    intro hc
    rwa [CommandRun.childHolds, hc]
  rcases hcase with ⟨_, -, -, hc, -⟩ | ⟨-, ⟨exit, hc⟩, -⟩ | ⟨-, hc, -⟩ | ⟨_, -, -, hc, -⟩ |
    ⟨_, -, -, hc, -⟩
  · exact hkept hc
  · rw [CommandRun.childHolds, hc]
  · exact hkept hc
  · exact hkept hc
  · exact hkept hc

/-- **The task keeps the record.** -/
theorem RunRecord.task (h : RunRecord cap r o) {a : TaskAct} (hs : taskStep cap r a = some r') :
    RunRecord cap r' (o.task r a) := by
  cases a with
  | collect s => exact h.collect hs
  | fire =>
    simp only [taskStep] at hs
    split at hs
    · obtain rfl := Option.some.inj hs
      exact ⟨h.sink, fun t => (h.stream t).congr rfl id rfl rfl⟩
    · exact absurd hs (by simp)
  | poll =>
    obtain ⟨hpipe, -, hsink, -⟩ := CommandRun.poll_cases hs
    refine ⟨hsink.trans h.sink, fun t => (h.stream t).congr (congrFun hpipe t) ?_ rfl rfl⟩
    exact fun hheld => held_of_poll hs hheld

/-- **A command that has returned was read to its ends.** -/
theorem RunRecord.complete (h : RunRecord cap r o) (hok : r.Ok) {exit : Option ExitStatus}
    (hpc : r.pc = .returned exit) : o.Complete := by
  intro s
  obtain ⟨raw, rest, hl, hw, hrest⟩ := h.stream s
  have hended : (r.pipe s).collecting = false := hok.ended s (by simp [CommandRun.past, hpc])
  rw [if_neg (by rw [hended]; exact Bool.false_ne_true)] at hrest
  rw [hl, hw, Output.readable_map]
  rcases hrest with ⟨more, rfl⟩ | ⟨rfl, -⟩
  · rfl
  · rfl

end Run

/-! ## A job with its outputs -/

/-- How a command ended: it ran, or could not be spawned, and a note was made instead. -/
inductive CommandEnd where
  | ran (o : Output)
  | unspawned (note : List String)

namespace CommandEnd

/-- What goes to the log. -/
def lines : CommandEnd → List String
  | .ran o => o.merged
  | .unspawned note => note

/-- A command that ran was read to its ends. -/
def Complete : CommandEnd → Prop
  | .ran o => o.Complete
  | .unspawned _ => True

end CommandEnd

/-- A manager with its commands; and, for the job that was claimed last, the commands that have
ended, the output of the one that runs, and the message that was logged at the end. -/
structure RecordedJob (J P R : Type*) where
  job : WatchedJob J P R
  done : List CommandEnd
  current : Output
  closing : List String

/-- The outputs of the commands that have ended, one after the other. -/
def RecordedJob.merged {J P R : Type*} (d : RecordedJob J P R) : List String :=
  (d.done.map CommandEnd.lines).flatten

/-- How a program logs: the log of a job; the lines that a task keeps at a program point, `none`
once they are in the log; how many commands it has run there; what it notes for a command that is
not spawned; the message that a step logs at the end; how many commands a job runs, and with which
messages it ends. -/
structure Logging (J P R E : Type*) where
  log : J → List String
  gathered : P → Option (List String)
  ran : P → ℕ
  note : List String
  closing : JobManager J P R → ℕ → E → List String
  total : ℕ → Prop
  closes : J → List String → Prop

def isClaim : Event → Bool
  | .claimed _ _ => true
  | _ => false

section Recorded

variable {J P R Q E : Type*}

/-- The record after a step. -/
def RecordedJob.after (g : Logging J P R E) (d : RecordedJob J P R) (w : WatchedJob J P R)
    (ev : List Event) : WatchAct Q E → RecordedJob J P R
  | .manager (.go i e) =>
    if ev.any isClaim then ⟨w, [], .empty, []⟩
    else { d with job := w, closing := d.closing ++ g.closing d.job.manager i e }
  | .manager (.call _) | .manager (.drop _) => { d with job := w }
  | .spawn _ => { d with job := w, current := .empty }
  | .unspawned _ => { d with job := w, done := d.done ++ [.unspawned g.note] }
  | .task i a => { d with
      job := w, current := ((d.job.runs i).map fun r => d.current.task r a).getD d.current }
  | .proc _ a => { d with job := w, current := d.current.proc a }
  | .answer _ => { d with job := w, done := d.done ++ [.ran d.current], current := .empty }

@[simp] theorem RecordedJob.after_job (g : Logging J P R E) (d : RecordedJob J P R)
    (w : WatchedJob J P R) (ev : List Event) (a : WatchAct Q E) : (d.after g w ev a).job = w := by
  cases a with
  | manager b =>
    cases b with
    | go i e =>
      rw [after]
      split <;> rfl
    | call req => rfl
    | drop i => rfl
  | _ => rfl

/-- The manager with its commands and the record. -/
def recorded (p : JobProgram J P R Q E) (k : Commands P E) (g : Logging J P R E) :
    EventSystem (RecordedJob J P R) (WatchAct Q E) Event where
  init := fun d => (watched p k).init d.job ∧ d.done = [] ∧ d.current = .empty ∧ d.closing = []
  step := fun d a => (watchStep p k d.job a).map fun r => (d.after g r.1 r.2 a, r.2)

/-! ## What a program must be like -/

/-- What a step of an entry does to the log, where no command is awaited: the entry does not work
under a claim; or it claims the job; or it leaves the log, or writes to it the lines that it has
kept; or it ends the job. -/
inductive LogStep (p : JobProgram J P R Q E) (k : Commands P E) (g : Logging J P R E)
    (final : J → Prop) (m : JobManager J P R) (i : ℕ) (c : Start P) (m' : JobManager J P R)
    (ev : List Event) (closing : List String) : Prop
  | aside (pc : P) (hc : p.holds c.pc = false) (hpc : p.holds pc = false)
      (hstarts : m'.starts = (m.setPc i pc).starts) (hjob : m'.job = m.job)
      (hev : ev.any isClaim = false) (hclosing : closing = [])
  | claims (pc : P) (job : J) (hm : m' = m.claimJob i job pc) (hfree : p.running m.job = false)
      (hrun : p.running job = true) (hlog : g.log job = []) (hpc : g.gathered pc = some [])
      (hran : g.ran pc = 0) (hev : ev.any isClaim = true)
  | on (pc : P) (hc : p.holds c.pc = true) (hstarts : m'.starts = (m.setPc i pc).starts)
      (hrun : p.running m'.job = true) (hlog : g.log m'.job = g.log m.job)
      (hpc : g.gathered pc = g.gathered c.pc) (hran : g.ran pc = g.ran c.pc)
      (hev : ev.any isClaim = false) (hclosing : closing = [])
  | writes (pc : P) (lines : List String) (hc : p.holds c.pc = true)
      (hstarts : m'.starts = (m.setPc i pc).starts) (hrun : p.running m'.job = true)
      (hold : g.gathered c.pc = some lines) (hnew : g.gathered pc = none)
      (hlog : g.log m'.job = lines.foldl (pushLine k.cap) (g.log m.job))
      (hran : g.ran pc = g.ran c.pc) (hev : ev.any isClaim = false) (hclosing : closing = [])
  | ends (pc : P) (hc : p.holds c.pc = true) (hpc : p.holds pc = false)
      (hstarts : m'.starts = (m.setPc i pc).starts) (hfinal : final m'.job)
      (htotal : g.total (g.ran c.pc)) (hcloses : g.closes m'.job closing)
      (hlog : g.log m'.job
        = ((g.gathered c.pc).getD [] ++ closing).foldl (pushLine k.cap) (g.log m.job))
      (hev : ev.any isClaim = false)

/-- A task that has got the lines of a command keeps them. -/
def Answers (p : JobProgram J P R Q E) (g : Logging J P R E) (m : JobManager J P R) (i : ℕ)
    (c : Start P) (m' : JobManager J P R) (lines : List String) : Prop :=
  ∃ pc kept, m' = m.setPc i pc ∧ p.holds pc = true ∧ g.gathered c.pc = some kept ∧
    g.gathered pc = some (kept ++ lines) ∧ g.ran pc = g.ran c.pc + 1

/-- What the logging of a program must be like. -/
structure Logging.Sound (p : JobProgram J P R Q E) (k : Commands P E) (g : Logging J P R E)
    (final : J → Prop) : Prop where
  cap : 0 < k.cap
  note : g.note.length ≤ k.cap
  awaits : ∀ pc, k.awaits pc = true → (g.gathered pc).isSome = true
  go : ∀ m i c e m' ev, m.starts[i]? = some c → k.awaits c.pc = false →
    (p.holds c.pc = true → p.running m.job = true) → p.go m i c e = some (m', ev) →
      LogStep p k g final m i c m' ev (g.closing m i e)
  answer : ∀ m i c exit lines m' ev, k.awaits c.pc = true →
    p.go m i c (k.answer exit lines) = some (m', ev) → Answers p g m i c m' lines
  unspawned : ∀ m i c e m' ev, k.awaits c.pc = true → k.unspawned = some e →
    p.go m i c e = some (m', ev) → Answers p g m i c m' g.note

/-! ## The record of a job -/

/-- What is known of the job of an entry that works under a claim. -/
structure EntryRecord (k : Commands P E) (g : Logging J P R E) (d : RecordedJob J P R) (i : ℕ)
    (pc : P) : Prop where
  open_ : d.closing = []
  complete : ∀ e ∈ d.done, e.Complete
  ran : d.done.length = g.ran pc
  kept : ∀ lines, g.gathered pc = some lines →
    g.log d.job.manager.job = [] ∧
      lines = (d.done.map fun e => e.lines.rtake k.cap).flatten ∧
      ∀ r, d.job.runs i = some r → RunRecord k.cap r d.current
  written : g.gathered pc = none → g.log d.job.manager.job = d.merged.rtake k.cap

/-- **The record of a job is right**, as long as somebody works at it and at its end. -/
structure OutputOk (p : JobProgram J P R Q E) (k : Commands P E) (g : Logging J P R E)
    (final : J → Prop) (d : RecordedJob J P R) : Prop where
  holder : ∀ (i : ℕ) (c : Start P), d.job.manager.starts[i]? = some c → p.holds c.pc = true →
    EntryRecord k g d i c.pc
  atEnd : final d.job.manager.job →
    g.log d.job.manager.job = (d.merged ++ d.closing).rtake k.cap ∧
      (∀ e ∈ d.done, e.Complete) ∧ g.total d.done.length ∧
      g.closes d.job.manager.job d.closing

/-! ## Every step keeps the record right -/

/-- A new log holds the end of what was pushed. -/
theorem foldl_pushLine {cap : ℕ} (hcap : 0 < cap) (xs : List String) :
    xs.foldl (pushLine cap) [] = xs.rtake cap := foldl_push_nil hcap xs

/-- The lines of some commands, each from a sink of its own, in a new log. -/
theorem foldl_push_lines {cap : ℕ} (hcap : 0 < cap) (es : List CommandEnd) :
    ((es.map fun e => e.lines.rtake cap).flatten).foldl (pushLine cap) []
      = ((es.map CommandEnd.lines).flatten).rtake cap := by
  have hmap : (es.map fun e => e.lines.rtake cap)
      = (es.map CommandEnd.lines).map fun xs => xs.rtake cap := by
    rw [List.map_map]
    rfl
  rw [foldl_pushLine hcap, hmap, rtake_flatten]

/-- More lines in a log that holds the end of some. -/
theorem foldl_push_rtake {cap : ℕ} (hcap : 0 < cap) (xs ys : List String) :
    ys.foldl (pushLine cap) (xs.rtake cap) = (xs ++ ys).rtake cap := by
  have hlen : (xs.rtake cap).length ≤ cap := by
    rw [length_rtake]
    exact Nat.min_le_left _ _
  exact (foldl_push hcap _ hlen ys).trans (rtake_append_rtake cap xs ys)

section Keep

variable {p : JobProgram J P R Q E} {k : Commands P E} {g : Logging J P R E} {final : J → Prop}
  {d d' : RecordedJob J P R} {w : WatchedJob J P R} {tr ev : List Event} {i : ℕ} {c : Start P}

/-- The job of a recorded run is in a run of its own. -/
theorem job_of_run (h : (recorded p k g).Run Anything tr d) :
    (watched p k).Run Anything tr d.job := by
  refine h.project RecordedJob.job id rfl (fun _ _ => rfl) ?_ ?_
  · rintro d ⟨hd, -⟩
    exact hd
  intro tr d a d' ev _ _ hs
  obtain ⟨⟨w, evs⟩, hw, heq⟩ := Option.map_eq_some_iff.mp hs
  obtain ⟨rfl, rfl⟩ := Prod.mk.inj heq
  refine .inr ⟨a, trivial, ?_⟩
  rw [RecordedJob.after_job]
  exact hw

/-- Every run has a record. -/
theorem exists_record (g : Logging J P R E) (h : (watched p k).Run Anything tr w) :
    ∃ d, (recorded p k g).Run Anything tr d ∧ d.job = w := by
  induction h with
  | start hs => exact ⟨⟨_, [], .empty, []⟩, .start ⟨hs, rfl, rfl, rfl⟩, rfl⟩
  | @next tr ev w w' a _ _ hs ih =>
    obtain ⟨d, hr, rfl⟩ := ih
    have hstep : (recorded p k g).step d a = some (d.after g w' ev a, ev) := by
      show Option.map _ _ = _
      rw [show watchStep p k d.job a = some (w', ev) from hs]
      rfl
    exact ⟨_, hr.next trivial hstep, RecordedJob.after_job g d w' ev a⟩

/-- The record of an entry depends on the log of the job and on what is recorded. -/
theorem EntryRecord.congr {pc pc' : P} (h : EntryRecord k g d i pc)
    (hlog : g.log d'.job.manager.job = g.log d.job.manager.job) (hdone : d'.done = d.done)
    (hclosing : d'.closing = d.closing) (hpc : g.gathered pc' = g.gathered pc)
    (hran : g.ran pc' = g.ran pc)
    (hrun : ∀ r, d'.job.runs i = some r → RunRecord k.cap r d'.current) :
    EntryRecord k g d' i pc' where
  open_ := hclosing.trans h.open_
  complete := by rw [hdone]; exact h.complete
  ran := by rw [hdone, hran]; exact h.ran
  kept := by
    intro lines hlines
    obtain ⟨hempty, hkept, -⟩ := h.kept lines (hpc.symm.trans hlines)
    exact ⟨hlog.trans hempty, by rw [hdone]; exact hkept, hrun⟩
  written := by
    intro hnone
    rw [hlog, RecordedJob.merged, hdone]
    exact h.written (hpc.symm.trans hnone)

/-- A step of the manager by itself, in which an entry that holds no claim goes on. -/
theorem OutputOk.keep (h : OutputOk p k g final d) (hjob : d'.job.manager.job = d.job.manager.job)
    (hruns : d'.job.runs = d.job.runs) (hdone : d'.done = d.done)
    (hcurrent : d'.current = d.current) (hclosing : d'.closing = d.closing)
    (hk : ∀ i r c, d.job.runs i = some r → d.job.manager.starts[i]? = some c →
      (g.gathered c.pc).isSome = true)
    (hholder : ∀ (j : ℕ) (e : Start P), d'.job.manager.starts[j]? = some e →
      p.holds e.pc = true → d.job.manager.starts[j]? = some e) : OutputOk p k g final d' where
  holder := by
    intro j e he hholds
    have hold := hholder j e he hholds
    refine (h.holder j e hold hholds).congr (by rw [hjob]) hdone hclosing rfl rfl fun r hr => ?_
    rw [hruns] at hr
    obtain ⟨lines, hlines⟩ := Option.isSome_iff_exists.mp (hk j r e hr hold)
    rw [hcurrent]
    exact ((h.holder j e hold hholds).kept lines hlines).2.2 r hr
  atEnd := by
    rw [hjob, RecordedJob.merged, hdone, hclosing]
    exact h.atEnd

/-- Nobody but entry `i` works under a claim. -/
def HeldBy (p : JobProgram J P R Q E) (m : JobManager J P R) (i : ℕ) : Prop :=
  ∀ (j : ℕ) (e : Start P), m.starts[j]? = some e → p.holds e.pc = true → j = i

/-- The entries after the step of one that nobody else works beside. -/
theorem pc_of_heldBy {m m' : JobManager J P R} (honly : HeldBy p m i) (hc : m.starts[i]? = some c)
    {pc : P} (hstarts : m'.starts = (m.setPc i pc).starts) {j : ℕ} {e : Start P}
    (he : m'.starts[j]? = some e) (hholds : p.holds e.pc = true) : j = i ∧ e.pc = pc := by
  rw [hstarts] at he
  rcases (updates_modify hc).cases he with ⟨rfl, rfl⟩ | ⟨hji, he⟩
  · exact ⟨rfl, rfl⟩
  · exact absurd (honly j e he hholds) hji

/-- **A step of the manager by itself keeps the record right.** -/
theorem OutputOk.go (h : OutputOk p k g final d) (hg : g.Sound p k final)
    (hrests : ∀ job, final job → p.running job = false)
    (hruns : ∀ j r, d.job.runs j = some r → k.awaitsAt d.job.manager j = true)
    (hrunning : ∀ (j : ℕ) (e : Start P), d.job.manager.starts[j]? = some e →
      p.holds e.pc = true → p.running d.job.manager.job = true)
    (hc : d.job.manager.starts[i]? = some c) (hawaits : k.awaits c.pc = false)
    (honly : p.holds c.pc = true → HeldBy p d.job.manager i)
    {m' : JobManager J P R} {cl : List String}
    (hs : LogStep p k g final d.job.manager i c m' ev cl) :
    OutputOk p k g final
      (if ev.any isClaim then ⟨{ d.job with manager := m' }, [], .empty, []⟩
        else { d with job := { d.job with manager := m' }, closing := d.closing ++ cl }) := by
  -- entry `i` has no command that runs
  have hidle : d.job.runs i = none := by
    cases hr : d.job.runs i with
    | none => rfl
    | some r =>
      have hi := hruns i r hr
      rw [Commands.awaitsAt_of hc, hawaits] at hi
      exact absurd hi Bool.false_ne_true
  cases hs with
  | aside pc hfree hpc hstarts hjob hev hclosing =>
    rw [if_neg (by rw [hev]; exact Bool.false_ne_true), hclosing]
    refine h.keep hjob rfl rfl rfl (List.append_nil _) (fun j r e hr he => ?_)
      (fun j e he hholds => ?_)
    · obtain ⟨e', he', hj⟩ := (Option.any_eq_true _ _).mp (hruns j r hr)
      obtain rfl := Option.some.inj (he'.symm.trans he)
      exact hg.awaits _ hj
    · replace he : m'.starts[j]? = some e := he
      rw [hstarts] at he
      rcases (updates_modify hc).cases he with ⟨-, rfl⟩ | ⟨-, he⟩
      · exact absurd (hpc.symm.trans hholds) Bool.false_ne_true
      · exact he
  | claims pc job hm hfree hrun hlog hpc hran hev =>
    rw [if_pos hev, hm]
    refine ⟨fun j e he hholds => ?_, fun hfinal => ?_⟩
    · rcases (updates_modify hc).cases he with ⟨rfl, rfl⟩ | ⟨-, he⟩
      · refine ⟨rfl, fun e he => absurd he List.not_mem_nil, hran.symm, fun lines hlines => ?_,
          fun hnone => absurd (hpc.symm.trans hnone) (by simp)⟩
        obtain rfl := Option.some.inj (hpc.symm.trans hlines)
        exact ⟨hlog, rfl, fun r hr => absurd (hidle.symm.trans hr) (by simp)⟩
      · exact absurd (hfree.symm.trans (hrunning j e he hholds)) Bool.false_ne_true
    · exact absurd (hrun.symm.trans (hrests job hfinal)) (by simp)
  | on pc hholds hstarts hrun hlog hpc hran hev hclosing =>
    rw [if_neg (by rw [hev]; exact Bool.false_ne_true), hclosing]
    refine ⟨fun j e he hholds' => ?_, fun hfinal => ?_⟩
    · obtain ⟨rfl, rfl⟩ := pc_of_heldBy (honly hholds) hc hstarts he hholds'
      exact (h.holder j c hc hholds).congr hlog rfl (List.append_nil _) hpc hran
        fun r hr => absurd (hidle.symm.trans hr) (by simp)
    · exact absurd (hrun.symm.trans (hrests _ hfinal)) (by simp)
  | writes pc lines hholds hstarts hrun hold hnew hlog hran hev hclosing =>
    rw [if_neg (by rw [hev]; exact Bool.false_ne_true), hclosing]
    refine ⟨fun j e he hholds' => ?_, fun hfinal => ?_⟩
    · obtain ⟨rfl, rfl⟩ := pc_of_heldBy (honly hholds) hc hstarts he hholds'
      have hrec := h.holder j c hc hholds
      obtain ⟨hempty, hkept, -⟩ := hrec.kept lines hold
      refine ⟨(List.append_nil _).trans hrec.open_, hrec.complete, hrec.ran.trans hran.symm,
        fun l hl => absurd (hnew.symm.trans hl) (by simp), fun _ => ?_⟩
      show g.log m'.job = d.merged.rtake k.cap
      rw [hlog, hempty, hkept]
      exact foldl_push_lines hg.cap _
    · exact absurd (hrun.symm.trans (hrests _ hfinal)) (by simp)
  | ends pc hholds hpc hstarts hfinal htotal hcloses hlog hev =>
    rw [if_neg (by rw [hev]; exact Bool.false_ne_true)]
    have hrec := h.holder i c hc hholds
    have htotal' : g.total d.done.length := by
      rw [hrec.ran]
      exact htotal
    refine ⟨fun j e he hholds' => ?_, fun _ => ⟨?_, hrec.complete, htotal', ?_⟩⟩
    · obtain ⟨-, rfl⟩ := pc_of_heldBy (honly hholds) hc hstarts he hholds'
      exact absurd (hpc.symm.trans hholds') Bool.false_ne_true
    · show g.log m'.job = (d.merged ++ (d.closing ++ cl)).rtake k.cap
      rw [hrec.open_, List.nil_append, hlog, List.foldl_append]
      have hlines : ((g.gathered c.pc).getD []).foldl (pushLine k.cap) (g.log d.job.manager.job)
          = d.merged.rtake k.cap := by
        cases hgath : g.gathered c.pc with
        | none => exact hrec.written hgath
        | some lines =>
          obtain ⟨hempty, hkept, -⟩ := hrec.kept lines hgath
          rw [hempty, Option.getD_some, hkept]
          exact foldl_push_lines hg.cap _
      rw [hlines]
      exact foldl_push_rtake hg.cap _ _
    · show g.closes m'.job (d.closing ++ cl)
      rw [hrec.open_, List.nil_append]
      exact hcloses

/-- **A step of a command keeps the record right.** -/
theorem OutputOk.command (h : OutputOk p k g final d)
    (hrests : ∀ job, final job → p.running job = false)
    (hrunning : p.running d.job.manager.job = true) (honly : HeldBy p d.job.manager i)
    {r : CommandRun} {o : Output} (hr : RunRecord k.cap r o) :
    OutputOk p k g final { d with job := d.job.setRun i (some r), current := o } where
  holder := by
    intro j e he hholds
    obtain rfl := honly j e he hholds
    refine (h.holder j e he hholds).congr rfl rfl rfl rfl rfl fun r' hr' => ?_
    replace hr' : Function.update d.job.runs j (some r) j = some r' := hr'
    rw [Function.update_self] at hr'
    obtain rfl := Option.some.inj hr'
    exact hr
  atEnd := fun hfinal => absurd (hrunning.symm.trans (hrests _ hfinal)) (by simp)

/-- **The end of a command keeps the record right.** -/
theorem OutputOk.answer (h : OutputOk p k g final d)
    (hrests : ∀ job, final job → p.running job = false)
    (hrunning : p.running d.job.manager.job = true) (honly : HeldBy p d.job.manager i)
    (hc : d.job.manager.starts[i]? = some c) (hholds : p.holds c.pc = true)
    {e : CommandEnd} (he : e.Complete) {m' : JobManager J P R} {o : Output}
    (hs : Answers p g d.job.manager i c m' (e.lines.rtake k.cap)) :
    OutputOk p k g final
      { d with job := ⟨m', Function.update d.job.runs i none⟩, done := d.done ++ [e],
               current := o } := by
  obtain ⟨pc, lines, rfl, hpc, hold, hnew, hran⟩ := hs
  have hrec := h.holder i c hc hholds
  obtain ⟨hempty, hkept, -⟩ := hrec.kept lines hold
  refine ⟨fun j x hx hxholds => ?_, fun hfinal => ?_⟩
  · obtain ⟨rfl, rfl⟩ := pc_of_heldBy honly hc rfl hx hxholds
    refine ⟨hrec.open_, fun y hy => ?_, ?_, fun l hl => ⟨hempty, ?_, fun r hr => ?_⟩,
      fun hnone => absurd (hnew.symm.trans hnone) (by simp)⟩
    · rcases List.mem_append.mp hy with hy | hy
      · exact hrec.complete y hy
      · rw [List.mem_singleton.mp hy]
        exact he
    · rw [hran, ← hrec.ran]
      exact List.length_append
    · obtain rfl := Option.some.inj (hnew.symm.trans hl)
      rw [hkept, List.map_append, List.flatten_append]
      simp
    · replace hr : Function.update d.job.runs j none j = some r := hr
      rw [Function.update_self] at hr
      exact absurd hr (by simp)
  · exact absurd (hrunning.symm.trans (hrests _ hfinal)) (by simp)

section Steps

variable (hp : p.Sound) (hk : k.Sound p final) (hg : g.Sound p k final)
  (hrec : OutputOk p k g final d) (hman : p.system.Run Anything tr d.job.manager)
  (hok : WatchedJob.Ok k d.job)

include hp hk hman

/-- An entry that awaits a command holds the claim, and nobody else does. -/
theorem holds_of_awaitsAt (hi : k.awaitsAt d.job.manager i = true) :
    ∃ c, d.job.manager.starts[i]? = some c ∧ k.awaits c.pc = true ∧ p.holds c.pc = true ∧
      p.running d.job.manager.job = true ∧ HeldBy p d.job.manager i := by
  obtain ⟨c, hc, hawaits⟩ := (Option.any_eq_true _ _).mp hi
  have hholds := hk.holds _ hawaits
  exact ⟨c, hc, hawaits, hholds, hp.running_of_holds hman hc hholds,
    fun j e he hej => hp.unique hman he hc hej hholds⟩

include hg hrec hok

/-- A command that runs is recorded. -/
theorem OutputOk.recorded {r : CommandRun} (hr : d.job.runs i = some r) :
    RunRecord k.cap r d.current := by
  obtain ⟨c, hc, hawaits, hholds, -⟩ := holds_of_awaitsAt hp hk hman (hok i r hr).2
  obtain ⟨lines, hlines⟩ := Option.isSome_iff_exists.mp (hg.awaits _ hawaits)
  exact ((hrec.holder i c hc hholds).kept lines hlines).2.2 r hr

/-- A step of the manager in which no entry comes to hold the claim. -/
theorem OutputOk.free {starts : List (Start P)}
    (hfree : ∀ (j : ℕ) (e : Start P), starts[j]? = some e → p.holds e.pc = true →
      d.job.manager.starts[j]? = some e) :
    OutputOk p k g final
      { d with job := { d.job with manager := { d.job.manager with starts := starts } } } := by
  refine hrec.keep rfl rfl rfl rfl rfl (fun j r e hr he => ?_) hfree
  obtain ⟨c, hc, hawaits, -⟩ := holds_of_awaitsAt hp hk hman (hok j r hr).2
  obtain rfl := Option.some.inj (hc.symm.trans he)
  exact hg.awaits _ hawaits

/-- **Every step of the manager keeps the record right.** -/
theorem OutputOk.manager {b : JobAct Q E} {m' : JobManager J P R}
    (hfree : ¬ k.awaitedBy d.job.manager b = true)
    (hs : p.step d.job.manager b = some (m', ev)) :
    OutputOk p k g final (d.after g { d.job with manager := m' } ev (.manager b)) := by
  cases b with
  | call req =>
    obtain ⟨rfl, -⟩ := Prod.mk.inj (Option.some.inj hs)
    refine hrec.free hp hk hg hman hok fun j e he hholds => ?_
    rcases getElem?_concat_cases he with he | ⟨-, rfl⟩
    · exact he
    · exact absurd ((hp.enter req).symm.trans hholds) Bool.false_ne_true
  | drop i =>
    simp only [JobProgram.step] at hs
    split at hs
    · next c hc =>
      split at hs
      · obtain ⟨rfl, -⟩ := Prod.mk.inj (Option.some.inj hs)
        refine hrec.free hp hk hg hman hok fun j e he hholds => ?_
        rcases (updates_modify hc).cases he with ⟨-, rfl⟩ | ⟨-, he⟩
        · exact absurd (hp.dropped.symm.trans hholds) Bool.false_ne_true
        · exact he
      · exact absurd hs (by simp)
    · exact absurd hs (by simp)
  | go i e =>
    simp only [JobProgram.step] at hs
    split at hs
    · next c hc =>
      have hawaits : k.awaits c.pc = false := by
        rw [Commands.awaitedBy, Commands.awaitsAt_of hc] at hfree
        simpa using hfree
      have hrun := fun hholds => hp.running_of_holds hman hc hholds
      exact hrec.go hg hk.rests (fun j r hr => (hok j r hr).2)
        (fun j e he hholds => hp.running_of_holds hman he hholds) hc hawaits
        (fun hholds j e he hej => hp.unique hman he hc hej hholds)
        (hg.go _ i c e m' _ hc hawaits hrun hs)
    · exact absurd hs (by simp)

omit hg in
/-- **Every step of a command keeps the record right.** -/
theorem OutputOk.ran {r r' : CommandRun} (hr : d.job.runs i = some r) {o : Output}
    (hrun : RunRecord k.cap r' o) :
    OutputOk p k g final { d with job := d.job.setRun i (some r'), current := o } := by
  obtain ⟨c, -, -, -, hrunning, honly⟩ := holds_of_awaitsAt hp hk hman (hok i r hr).2
  exact hrec.command hk.rests hrunning honly hrun

omit hg hok in
/-- **Going on with the answer of a command keeps the record right.** -/
theorem OutputOk.goOn {e : E} {x : CommandEnd} (hx : x.Complete) {o : Output}
    (hi : k.awaitsAt d.job.manager i = true)
    (hanswer : ∀ c m' ev, k.awaits c.pc = true → p.go d.job.manager i c e = some (m', ev) →
      Answers p g d.job.manager i c m' (x.lines.rtake k.cap))
    (hs : d.job.goOn p i e = some (w, ev)) :
    OutputOk p k g final { d with job := w, done := d.done ++ [x], current := o } := by
  obtain ⟨c, hc, hawaits, hholds, hrunning, honly⟩ := holds_of_awaitsAt hp hk hman hi
  obtain ⟨⟨m', ev'⟩, hm, heq⟩ := Option.map_eq_some_iff.mp hs
  obtain ⟨rfl, -⟩ := Prod.mk.inj heq
  rw [JobProgram.step_go hc] at hm
  exact hrec.answer hk.rests hrunning honly hc hholds hx (hanswer c m' ev' hawaits hm)

end Steps

/-- **The record of every job of a run is right.** -/
theorem outputOk_of_run (hp : p.Sound) (hk : k.Sound p final) (hg : g.Sound p k final)
    (hnew : ∀ m, p.init m → ¬ final m.job) (h : (recorded p k g).Run Anything tr d) :
    OutputOk p k g final d := by
  refine h.invariant (I := fun _ d => OutputOk p k g final d) ?_ ?_
  · rintro d ⟨⟨hinit, -⟩, -⟩
    refine ⟨fun i c hc => ?_, fun hfinal => absurd hfinal (hnew _ hinit)⟩
    rw [(hp.init _ hinit).2.2] at hc
    exact absurd hc (by simp)
  · intro tr d a d' ev hr _ hs hrec
    obtain ⟨⟨w, evs⟩, hw, heq⟩ := Option.map_eq_some_iff.mp hs
    obtain ⟨rfl, rfl⟩ := Prod.mk.inj heq
    have hjob := job_of_run hr
    have hman := WatchedJob.manager_of_run hjob
    have hok := WatchedJob.ok_of_run hk hjob
    cases a with
    | manager b =>
      simp only [watchStep] at hw
      split at hw
      · exact absurd hw (by simp)
      · next hfree =>
        obtain ⟨⟨m', ev'⟩, hm, heq⟩ := Option.map_eq_some_iff.mp hw
        obtain ⟨rfl, rfl⟩ := Prod.mk.inj heq
        exact hrec.manager hp hk hg hman hok hfree hm
    | spawn i =>
      simp only [watchStep] at hw
      split at hw
      · next hi =>
        obtain ⟨rfl, -⟩ := Prod.mk.inj (Option.some.inj hw)
        obtain ⟨c, -, -, -, hrunning, honly⟩ :=
          holds_of_awaitsAt hp hk hman (Bool.and_eq_true_iff.mp hi).1
        exact hrec.command hk.rests hrunning honly (runRecord_spawned k.cap)
      · exact absurd hw (by simp)
    | unspawned i =>
      simp only [watchStep] at hw
      split at hw
      · next e he =>
        split at hw
        · next hi =>
          refine hrec.goOn hp hk hman (x := .unspawned g.note) trivial
            (Bool.and_eq_true_iff.mp hi).1 (fun c m' ev' hawaits hm => ?_) hw
          have hanswer := hg.unspawned _ i c e m' _ hawaits he hm
          rwa [← rtake_of_length_le hg.note] at hanswer
        · exact absurd hw (by simp)
      · exact absurd hw (by simp)
    | task i b =>
      simp only [watchStep] at hw
      split at hw
      · next r hri =>
        obtain ⟨r', hstep, heq⟩ := Option.map_eq_some_iff.mp hw
        obtain ⟨rfl, -⟩ := Prod.mk.inj heq
        have hafter : d.after g (d.job.setRun i (some r')) [] (.task i b : WatchAct Q E)
            = { d with job := d.job.setRun i (some r'), current := d.current.task r b } := by
          rw [RecordedJob.after, hri]
          rfl
        show OutputOk p k g final (d.after g _ [] (.task i b : WatchAct Q E))
        rw [hafter]
        exact hrec.ran hp hk hman hok hri ((hrec.recorded hp hk hg hman hok hri).task hstep)
      · exact absurd hw (by simp)
    | proc i b =>
      simp only [watchStep] at hw
      split at hw
      · next r hri =>
        obtain ⟨r', hstep, heq⟩ := Option.map_eq_some_iff.mp hw
        obtain ⟨rfl, -⟩ := Prod.mk.inj heq
        exact hrec.ran hp hk hman hok hri ((hrec.recorded hp hk hg hman hok hri).proc hstep)
      · exact absurd hw (by simp)
    | answer i =>
      simp only [watchStep] at hw
      split at hw
      · next r hri =>
        split at hw
        · next exit hpc =>
          have hcur := hrec.recorded hp hk hg hman hok hri
          refine hrec.goOn hp hk hman (x := .ran d.current)
            (hcur.complete (hok i r hri).1 hpc) (hok i r hri).2 (fun c m' ev' hawaits hm => ?_) hw
          have hanswer := hg.answer _ i c exit r.sink m' _ hawaits hm
          rwa [hcur.sink, foldl_pushLine hg.cap] at hanswer
        · exact absurd hw (by simp)
      · exact absurd hw (by simp)

end Keep

end Recorded

end LlmCtl
