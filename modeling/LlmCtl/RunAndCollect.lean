/-
# A command under a watchdog (`collect.rs`, `rebuild.rs`, `download.rs`)

A command's output is read by two collectors, one for each pipe; the task waits for the command
at most half an hour, kills it if need be, and then waits for both collectors.  A collector ends
when nobody holds the write end of its pipe any more.  The command may have started other
processes, which hold what they inherited, and which the kill does not reach.

So once the command has ended, or the watchdog has fired, the task comes to its end by itself
just if no other process holds a pipe that is still read.
-/
import LlmCtl.Download
import LlmCtl.SessionId
import Mathlib.Logic.Function.Basic

namespace LlmCtl

open EventSystem

/-! ## Processes and pipes -/

inductive StdStream where
  | out
  | err
  deriving DecidableEq

/-- The write ends that a process holds. -/
abbrev Ends := StdStream → Bool

/-- The direct child: with the ends that it holds, or how it ended (`none` if `wait` fails). -/
inductive Child where
  | running (ends : Ends)
  | ended (exit : Option ExitStatus)

/-- A pipe: the lines that are written and not yet read, `none` for one that is not UTF-8, and
whether its collector goes on. -/
structure Pipe where
  buffer : List (Option String)
  collecting : Bool

/-- Where the task is: at the wait for the child, at the kill, at the wait after it, or at the
end of a collector, with the exit status that it will return. -/
inductive RunPc where
  | waiting
  | killing
  | reaping
  | joinOut (exit : Option ExitStatus)
  | joinErr (exit : Option ExitStatus)
  | returned (exit : Option ExitStatus)
  deriving DecidableEq

/-- A command that runs: the direct child, what each of the other processes that come from it
holds, the pipes, the sink, and the task. -/
structure CommandRun where
  child : Child
  others : List Ends
  pipe : StdStream → Pipe
  sink : List String
  pc : RunPc

namespace CommandRun

/-- The command is spawned, and both collectors are. -/
def spawned : CommandRun :=
  ⟨.running fun _ => true, [], fun _ => ⟨[], true⟩, [], .waiting⟩

/-- Does the direct child hold this write end? -/
def childHolds (r : CommandRun) (s : StdStream) : Bool :=
  match r.child with
  | .running ends => ends s
  | .ended _ => false

/-- Does any process hold this write end? -/
def held (r : CommandRun) (s : StdStream) : Bool :=
  r.childHolds s || r.others.any fun ends => ends s

def setPipe (r : CommandRun) (s : StdStream) (p : Pipe) : CommandRun :=
  { r with pipe := Function.update r.pipe s p }

end CommandRun

/-! ## The steps of the processes -/

/-- What the direct child and the processes that come from it do. -/
inductive ProcAct where
  /-- The child ends. -/
  | exit (exit : Option ExitStatus)
  /-- The child starts a process, which inherits what it holds. -/
  | fork
  /-- Another process does. -/
  | forkOther (n : ℕ)
  /-- The child closes an end. -/
  | close (s : StdStream)
  /-- Another process closes one, or ends. -/
  | closeOther (n : ℕ) (s : StdStream)
  /-- Whoever holds an end writes a line. -/
  | write (s : StdStream) (line : Option String)

def procStep (r : CommandRun) : ProcAct → Option CommandRun
  | .exit exit =>
    match r.child with
    | .running _ => some { r with child := .ended exit }
    | .ended _ => none
  | .fork =>
    match r.child with
    | .running ends => some { r with others := r.others ++ [ends] }
    | .ended _ => none
  | .forkOther n => (r.others[n]?).map fun ends => { r with others := r.others ++ [ends] }
  | .close s =>
    match r.child with
    | .running ends => some { r with child := .running (Function.update ends s false) }
    | .ended _ => none
  | .closeOther n s =>
    some { r with others := r.others.modify n fun ends => Function.update ends s false }
  | .write s line =>
    if r.held s then
      some (r.setPipe s { r.pipe s with buffer := (r.pipe s).buffer ++ [line] })
    else none

/-! ## The steps of the task -/

/-- What the task, its collectors and its timer do. -/
inductive TaskAct where
  /-- The task goes on. -/
  | poll
  /-- The watchdog fires. -/
  | fire
  /-- A collector goes on. -/
  | collect (s : StdStream)

/-- `str::trim_end`. -/
def trimEnd (s : String) : String :=
  String.ofList (s.toList.reverse.dropWhile isWhiteSpace).reverse

/-- One turn of the loop of `collect_capped`: a line goes to the sink; the loop ends at a line
that is not UTF-8 and at the end of the pipe. -/
def collectCapped (cap : ℕ) (r : CommandRun) (s : StdStream) : Option CommandRun :=
  if (r.pipe s).collecting then
    match (r.pipe s).buffer with
    | some line :: rest =>
      some ({ r with sink := pushLine cap r.sink (trimEnd line) }.setPipe s ⟨rest, true⟩)
    | none :: rest => some (r.setPipe s ⟨rest, false⟩)
    | [] => if r.held s then none else some (r.setPipe s ⟨[], false⟩)
  else none

/-- One step of the task.  The kill reaches the child alone. -/
def taskStep (cap : ℕ) (r : CommandRun) : TaskAct → Option CommandRun
  | .fire =>
    match r.pc with
    | .waiting => some { r with pc := .killing }
    | _ => none
  | .collect s => collectCapped cap r s
  | .poll =>
    match r.pc with
    | .waiting =>
      match r.child with
      | .ended exit => some { r with pc := .joinOut exit }
      | .running _ => none
    | .killing =>
      match r.child with
      | .running _ => some { r with child := .ended (some ⟨none⟩), pc := .reaping }
      | .ended _ => some { r with pc := .reaping }
    | .reaping =>
      match r.child with
      | .ended _ => some { r with pc := .joinOut none }
      | .running _ => none
    | .joinOut exit =>
      if (r.pipe .out).collecting then none else some { r with pc := .joinErr exit }
    | .joinErr exit =>
      if (r.pipe .err).collecting then none else some { r with pc := .returned exit }
    | .returned _ => none

/-- Some steps of the task, one after another. -/
def taskSteps (cap : ℕ) (r : CommandRun) : List TaskAct → Option CommandRun
  | [] => some r
  | a :: as => (taskStep cap r a).bind fun r => taskSteps cap r as

/-! ## The condition -/

namespace CommandRun

/-- The watchdog has fired, or the direct child has ended. -/
def due (r : CommandRun) : Prop := r.pc ≠ .waiting ∨ ∃ exit, r.child = .ended exit

/-- The collector ends whoever holds the pipe: it has ended, or gives up at a line. -/
def givesUp (r : CommandRun) (s : StdStream) : Prop :=
  (r.pipe s).collecting = false ∨ none ∈ (r.pipe s).buffer

/-- **No process but the direct child holds a pipe that is still read.** -/
def Unheld (r : CommandRun) : Prop := ∀ s, r.givesUp s ∨ ∀ ends ∈ r.others, ends s = false

/-- Has the task got past the end of this collector? -/
def past (r : CommandRun) (s : StdStream) : Bool :=
  match r.pc, s with
  | .joinErr _, .out | .returned _, _ => true
  | _, _ => false

/-- The task waits for a collector only after the child, and goes past it only after its end. -/
structure Ok (r : CommandRun) : Prop where
  child : r.pc ≠ .waiting → r.pc ≠ .killing → ∃ exit, r.child = .ended exit
  ended : ∀ s, r.past s = true → (r.pipe s).collecting = false

end CommandRun

/-! ## Steps keep the order of the waits -/

namespace CommandRun

variable {r r' : CommandRun} {cap : ℕ}

@[simp] theorem setPipe_self (r : CommandRun) (s : StdStream) (p : Pipe) :
    (r.setPipe s p).pipe s = p := by
  simp only [setPipe, Function.update_self]

theorem setPipe_of_ne (r : CommandRun) {s t : StdStream} (p : Pipe) (h : t ≠ s) :
    (r.setPipe s p).pipe t = r.pipe t := by
  simp only [setPipe, Function.update_of_ne h]

theorem ok_spawned : spawned.Ok where
  child := fun h => absurd rfl h
  ended := fun _ h => absurd h (by simp [past, spawned])

/-- A write to a pipe leaves a collector that has ended where it is. -/
theorem Ok.setPipe (h : r.Ok) {s : StdStream} {p : Pipe}
    (hp : (r.pipe s).collecting = false → p.collecting = false) : (r.setPipe s p).Ok where
  child := h.child
  ended := by
    intro t ht
    by_cases hts : t = s
    · subst hts
      rw [setPipe_self]
      exact hp (h.ended t ht)
    · rw [setPipe_of_ne r p hts]
      exact h.ended t ht

/-- **The processes keep the order.** -/
theorem Ok.procStep {a : ProcAct} (h : r.Ok) (hs : procStep r a = some r') : r'.Ok := by
  cases a with
  | exit exit =>
    simp only [LlmCtl.procStep] at hs
    split at hs
    · obtain rfl := Option.some.inj hs
      exact ⟨fun _ _ => ⟨exit, rfl⟩, h.ended⟩
    · exact absurd hs (by simp)
  | fork =>
    simp only [LlmCtl.procStep] at hs
    split at hs
    · obtain rfl := Option.some.inj hs
      exact ⟨h.child, h.ended⟩
    · exact absurd hs (by simp)
  | forkOther n =>
    obtain ⟨ends, -, rfl⟩ := Option.map_eq_some_iff.mp hs
    exact ⟨h.child, h.ended⟩
  | close s =>
    simp only [LlmCtl.procStep] at hs
    split at hs
    · next ends hchild =>
      obtain rfl := Option.some.inj hs
      refine ⟨fun hw hk => ?_, h.ended⟩
      obtain ⟨exit, hexit⟩ := h.child hw hk
      exact absurd (hchild.symm.trans hexit) (by simp)
    · exact absurd hs (by simp)
  | closeOther n s =>
    obtain rfl := Option.some.inj hs
    exact ⟨h.child, h.ended⟩
  | write s line =>
    simp only [LlmCtl.procStep] at hs
    split at hs
    · obtain rfl := Option.some.inj hs
      exact h.setPipe id
    · exact absurd hs (by simp)

/-- What a collector does to its pipe: it takes a line, gives up at one, or comes to the end. -/
theorem collectCapped_cases {s : StdStream} (hs : collectCapped cap r s = some r') :
    (r.pipe s).collecting = true ∧
      ((∃ line rest, (r.pipe s).buffer = some line :: rest ∧
          r' = { r with sink := pushLine cap r.sink (trimEnd line) }.setPipe s ⟨rest, true⟩) ∨
        (∃ rest, (r.pipe s).buffer = none :: rest ∧ r' = r.setPipe s ⟨rest, false⟩) ∨
        ((r.pipe s).buffer = [] ∧ r.held s = false ∧ r' = r.setPipe s ⟨[], false⟩)) := by
  unfold collectCapped at hs
  split at hs
  · next hcol =>
    refine ⟨hcol, ?_⟩
    split at hs
    · next line rest hbuf => exact .inl ⟨line, rest, hbuf, (Option.some.inj hs).symm⟩
    · next rest hbuf => exact .inr (.inl ⟨rest, hbuf, (Option.some.inj hs).symm⟩)
    · next hbuf =>
      split at hs
      · exact absurd hs (by simp)
      · next hheld =>
        exact .inr (.inr ⟨hbuf, by simpa using hheld, (Option.some.inj hs).symm⟩)
  · exact absurd hs (by simp)

/-- What the task itself does: it goes on to its next wait. -/
theorem poll_cases (hs : taskStep cap r .poll = some r') :
    r'.pipe = r.pipe ∧ r'.others = r.others ∧ r'.sink = r.sink ∧
      ((∃ exit, r.pc = .waiting ∧ r.child = .ended exit ∧ r'.child = r.child ∧
          r'.pc = .joinOut exit) ∨
        (r.pc = .killing ∧ (∃ exit, r'.child = .ended exit) ∧ r'.pc = .reaping) ∨
        (r.pc = .reaping ∧ r'.child = r.child ∧ r'.pc = .joinOut none) ∨
        (∃ exit, r.pc = .joinOut exit ∧ (r.pipe .out).collecting = false ∧ r'.child = r.child ∧
          r'.pc = .joinErr exit) ∨
        ∃ exit, r.pc = .joinErr exit ∧ (r.pipe .err).collecting = false ∧ r'.child = r.child ∧
          r'.pc = .returned exit) := by
  simp only [taskStep] at hs
  split at hs
  · next hpc =>
    split at hs
    · next exit hchild =>
      obtain rfl := Option.some.inj hs
      exact ⟨rfl, rfl, rfl, .inl ⟨exit, hpc, hchild, rfl, rfl⟩⟩
    · exact absurd hs (by simp)
  · next hpc =>
    split at hs
    · obtain rfl := Option.some.inj hs
      exact ⟨rfl, rfl, rfl, .inr (.inl ⟨hpc, ⟨_, rfl⟩, rfl⟩)⟩
    · next exit hchild =>
      obtain rfl := Option.some.inj hs
      exact ⟨rfl, rfl, rfl, .inr (.inl ⟨hpc, ⟨exit, hchild⟩, rfl⟩)⟩
  · next hpc =>
    split at hs
    · obtain rfl := Option.some.inj hs
      exact ⟨rfl, rfl, rfl, .inr (.inr (.inl ⟨hpc, rfl, rfl⟩))⟩
    · exact absurd hs (by simp)
  · next exit hpc =>
    split at hs
    · exact absurd hs (by simp)
    · next hcol =>
      obtain rfl := Option.some.inj hs
      exact ⟨rfl, rfl, rfl, .inr (.inr (.inr (.inl ⟨exit, hpc, by simpa using hcol, rfl, rfl⟩)))⟩
  · next exit hpc =>
    split at hs
    · exact absurd hs (by simp)
    · next hcol =>
      obtain rfl := Option.some.inj hs
      exact ⟨rfl, rfl, rfl, .inr (.inr (.inr (.inr ⟨exit, hpc, by simpa using hcol, rfl, rfl⟩)))⟩
  · exact absurd hs (by simp)

/-- **The task keeps the order.** -/
theorem Ok.taskStep {a : TaskAct} (h : r.Ok) (hs : taskStep cap r a = some r') : r'.Ok := by
  cases a with
  | fire =>
    simp only [LlmCtl.taskStep] at hs
    split at hs
    · obtain rfl := Option.some.inj hs
      exact ⟨fun _ hk => absurd rfl hk, fun s hp => absurd hp (by simp [past])⟩
    · exact absurd hs (by simp)
  | collect s =>
    obtain ⟨hcol, hcase⟩ := collectCapped_cases hs
    have hkeep : ∀ p : Pipe, (r.pipe s).collecting = false → p.collecting = false :=
      fun p hend => absurd (hcol.symm.trans hend) (by simp)
    rcases hcase with ⟨line, rest, -, rfl⟩ | ⟨rest, -, rfl⟩ | ⟨-, -, rfl⟩
    · have hsink : CommandRun.Ok { r with sink := pushLine cap r.sink (trimEnd line) } :=
        ⟨h.child, h.ended⟩
      exact hsink.setPipe (hkeep _)
    · exact h.setPipe (hkeep _)
    · exact h.setPipe (hkeep _)
  | poll =>
    obtain ⟨hpipe, -, -, hcase⟩ := poll_cases hs
    have hend : ∀ exit, r.child = .ended exit → r'.child = r.child →
        ∃ exit, r'.child = .ended exit :=
      fun exit hc hsame => ⟨exit, hsame.trans hc⟩
    rcases hcase with ⟨exit, hpc, hc, hsame, hpc'⟩ | ⟨hpc, hc, hpc'⟩ | ⟨hpc, hsame, hpc'⟩ |
      ⟨exit, hpc, hcol, hsame, hpc'⟩ | ⟨exit, hpc, hcol, hsame, hpc'⟩
    · exact ⟨fun _ _ => hend exit hc hsame, fun s hp => absurd hp (by simp [past, hpc'])⟩
    · exact ⟨fun _ _ => hc, fun s hp => absurd hp (by simp [past, hpc'])⟩
    · obtain ⟨exit, hc⟩ := h.child (by simp [hpc]) (by simp [hpc])
      exact ⟨fun _ _ => hend exit hc hsame, fun s hp => absurd hp (by simp [past, hpc'])⟩
    · obtain ⟨exit', hc⟩ := h.child (by simp [hpc]) (by simp [hpc])
      refine ⟨fun _ _ => hend exit' hc hsame, fun s hp => ?_⟩
      cases s with
      | out => rw [hpipe, hcol]
      | err => exact absurd hp (by simp [past, hpc'])
    · obtain ⟨exit', hc⟩ := h.child (by simp [hpc]) (by simp [hpc])
      refine ⟨fun _ _ => hend exit' hc hsame, fun s hp => ?_⟩
      rw [hpipe]
      cases s with
      | out => exact h.ended .out (by simp [past, hpc])
      | err => exact hcol

/-! ## Coming to the end -/

theorem taskSteps_append (cap : ℕ) (r : CommandRun) (as bs : List TaskAct) :
    taskSteps cap r (as ++ bs) = (taskSteps cap r as).bind fun r => taskSteps cap r bs := by
  induction as generalizing r with
  | nil => rfl
  | cons a as ih =>
    rw [List.cons_append, taskSteps, taskSteps]
    cases taskStep cap r a with
    | none => rfl
    | some r₁ => exact ih r₁

/-- Pipe `s` is read to its end, and all else is as it was. -/
structure Drained (s : StdStream) (r r' : CommandRun) : Prop where
  done : (r'.pipe s).collecting = false
  pipes : ∀ t, t ≠ s → r'.pipe t = r.pipe t
  pc : r'.pc = r.pc
  child : r'.child = r.child
  others : r'.others = r.others

theorem held_congr (hc : r'.child = r.child) (ho : r'.others = r.others) (s : StdStream) :
    r'.held s = r.held s := by
  unfold held childHolds
  rw [hc, ho]

/-- **A collector whose pipe is not held comes to its end**: the induction is on the lines that
are still in the pipe. -/
theorem drains (cap : ℕ) (r : CommandRun) (s : StdStream) (h : r.givesUp s ∨ r.held s = false) :
    ∃ as r', taskSteps cap r as = some r' ∧ Drained s r r' := by
  induction hlen : (r.pipe s).buffer.length generalizing r with
  | zero =>
    cases hcol : (r.pipe s).collecting with
    | false => exact ⟨[], r, rfl, hcol, fun _ _ => rfl, rfl, rfl, rfl⟩
    | true =>
      have hbuf : (r.pipe s).buffer = [] := List.length_eq_zero_iff.mp hlen
      have hheld : r.held s = false := by
        refine h.resolve_left fun hgive => ?_
        rcases hgive with hend | hnone
        · exact absurd (hcol.symm.trans hend) (by simp)
        · rw [hbuf] at hnone
          exact absurd hnone List.not_mem_nil
      refine ⟨[.collect s], r.setPipe s ⟨[], false⟩, ?_, ?_⟩
      · rw [taskSteps, taskStep, collectCapped, if_pos hcol, hbuf, hheld]
        rfl
      · exact ⟨by rw [setPipe_self], fun t ht => setPipe_of_ne r _ ht, rfl, rfl, rfl⟩
  | succ n ih =>
    cases hcol : (r.pipe s).collecting with
    | false => exact ⟨[], r, rfl, hcol, fun _ _ => rfl, rfl, rfl, rfl⟩
    | true =>
      cases hbuf : (r.pipe s).buffer with
      | nil => exact absurd hlen (by simp [hbuf])
      | cons line rest =>
        cases line with
        | none =>
          refine ⟨[.collect s], r.setPipe s ⟨rest, false⟩, ?_, ?_⟩
          · rw [taskSteps, taskStep, collectCapped, if_pos hcol, hbuf]
            rfl
          · exact ⟨by rw [setPipe_self], fun t ht => setPipe_of_ne r _ ht, rfl, rfl, rfl⟩
        | some line =>
          let r₁ := CommandRun.setPipe { r with sink := pushLine cap r.sink (trimEnd line) } s
            ⟨rest, true⟩
          have hpipe : r₁.pipe s = ⟨rest, true⟩ := setPipe_self _ s _
          have hstep : taskStep cap r (.collect s) = some r₁ := by
            rw [taskStep, collectCapped, if_pos hcol, hbuf]
          have hnext : r₁.givesUp s ∨ r₁.held s = false := by
            rcases h with (hend | hnone) | hheld
            · exact absurd (hcol.symm.trans hend) (by simp)
            · left
              right
              rw [hbuf] at hnone
              rw [hpipe]
              exact (List.mem_cons.mp hnone).resolve_left (by simp)
            · right
              have hsame : r₁.held s = r.held s := held_congr rfl rfl s
              rw [hsame, hheld]
          have hlen₁ : (r₁.pipe s).buffer.length = n := by
            rw [hbuf, List.length_cons] at hlen
            rw [hpipe]
            exact Nat.succ.inj hlen
          obtain ⟨as, r', hrun, hdrained⟩ := ih r₁ hnext hlen₁
          refine ⟨.collect s :: as, r', ?_, ?_⟩
          · rw [taskSteps, hstep, Option.bind_some, hrun]
          · exact ⟨hdrained.done, fun t ht => (hdrained.pipes t ht).trans (setPipe_of_ne _ _ ht),
              hdrained.pc, hdrained.child, hdrained.others⟩

/-- A pipe that only the direct child may hold, after the child has ended. -/
theorem Unheld.free (h : r.Unheld) {exit : Option ExitStatus} (hc : r.child = .ended exit)
    (s : StdStream) : r.givesUp s ∨ r.held s = false := by
  refine (h s).imp_right fun hothers => ?_
  rw [held, childHolds, hc, Bool.false_or, List.any_eq_false]
  intro ends hmem
  rw [hothers ends hmem]
  exact Bool.false_ne_true

theorem givesUp_congr {s : StdStream} (hp : r'.pipe s = r.pipe s) : r'.givesUp s ↔ r.givesUp s := by
  unfold givesUp
  rw [hp]

/-- **The task gets past both collectors.** -/
theorem joins {exit exit' : Option ExitStatus} (hc : r.child = .ended exit')
    (hpc : r.pc = .joinOut exit) (h : r.Unheld) :
    ∃ as r', taskSteps cap r as = some r' ∧ r'.pc = .returned exit := by
  obtain ⟨as, r₁, hrun₁, hout⟩ := drains cap r .out (h.free hc .out)
  have hpc₁ : r₁.pc = .joinOut exit := hout.pc.trans hpc
  have hstep₁ : taskStep cap r₁ .poll = some { r₁ with pc := .joinErr exit } := by
    simp only [taskStep, hpc₁, hout.done, Bool.false_eq_true, if_false]
  have herr : CommandRun.givesUp { r₁ with pc := .joinErr exit } .err ∨
      CommandRun.held { r₁ with pc := .joinErr exit } .err = false := by
    refine (h.free hc .err).imp (fun hgive => ?_) fun hheld => ?_
    · exact (givesUp_congr (hout.pipes .err (by decide))).mpr hgive
    · have hsame : r₁.held .err = r.held .err := held_congr hout.child hout.others .err
      exact hsame.trans hheld
  obtain ⟨bs, r₂, hrun₂, herr⟩ := drains cap _ .err herr
  have hpc₂ : r₂.pc = .joinErr exit := herr.pc
  have hstep₂ : taskStep cap r₂ .poll = some { r₂ with pc := .returned exit } := by
    simp only [taskStep, hpc₂, herr.done, Bool.false_eq_true, if_false]
  refine ⟨as ++ (.poll :: (bs ++ [.poll])), { r₂ with pc := .returned exit }, ?_, rfl⟩
  rw [taskSteps_append, hrun₁, Option.bind_some, taskSteps, hstep₁, Option.bind_some,
    taskSteps_append, hrun₂, Option.bind_some, taskSteps, hstep₂]
  rfl

/-- **A task whose pipes are not held returns.** -/
theorem returns (cap : ℕ) (hok : r.Ok) (hdue : r.due) (h : r.Unheld) :
    ∃ as r' exit, taskSteps cap r as = some r' ∧ r'.pc = .returned exit := by
  -- from the wait after the kill
  have hreap : ∀ {q : CommandRun} {exit : Option ExitStatus}, q.pc = .reaping →
      q.child = .ended exit → q.Unheld →
      ∃ as r' exit, taskSteps cap q as = some r' ∧ r'.pc = .returned exit := by
    intro q exit hpc hc hq
    obtain ⟨as, r', hrun, hret⟩ := joins (r := { q with pc := .joinOut none }) hc rfl hq
    have hstep : taskStep cap q .poll = some { q with pc := .joinOut none } := by
      simp only [taskStep, hpc, hc]
    exact ⟨.poll :: as, r', none, by rw [taskSteps, hstep, Option.bind_some, hrun], hret⟩
  cases hpc : r.pc with
  | waiting =>
    obtain ⟨exit, hc⟩ := hdue.resolve_left (fun hne => hne hpc)
    obtain ⟨as, r', hrun, hret⟩ := joins (r := { r with pc := .joinOut exit }) hc rfl h
    have hstep : taskStep cap r .poll = some { r with pc := .joinOut exit } := by
      simp only [taskStep, hpc, hc]
    exact ⟨.poll :: as, r', exit, by rw [taskSteps, hstep, Option.bind_some, hrun], hret⟩
  | killing =>
    cases hc : r.child with
    | running ends =>
      have hstep : taskStep cap r .poll
          = some { r with child := .ended (some ⟨none⟩), pc := .reaping } := by
        simp only [taskStep, hpc, hc]
      obtain ⟨as, r', exit, hrun, hret⟩ :=
        hreap (q := { r with child := .ended (some ⟨none⟩), pc := .reaping }) rfl rfl h
      exact ⟨.poll :: as, r', exit, by rw [taskSteps, hstep, Option.bind_some, hrun], hret⟩
    | ended exit =>
      have hstep : taskStep cap r .poll = some { r with pc := .reaping } := by
        simp only [taskStep, hpc, hc]
      obtain ⟨as, r', exit', hrun, hret⟩ := hreap (q := { r with pc := .reaping }) rfl hc h
      exact ⟨.poll :: as, r', exit', by rw [taskSteps, hstep, Option.bind_some, hrun], hret⟩
  | reaping =>
    obtain ⟨exit, hc⟩ := hok.child (by simp [hpc]) (by simp [hpc])
    exact hreap hpc hc h
  | joinOut exit =>
    obtain ⟨exit', hc⟩ := hok.child (by simp [hpc]) (by simp [hpc])
    obtain ⟨as, r', hrun, hret⟩ := joins hc hpc h
    exact ⟨as, r', exit, hrun, hret⟩
  | joinErr exit =>
    obtain ⟨exit', hc⟩ := hok.child (by simp [hpc]) (by simp [hpc])
    obtain ⟨as, r₁, hrun, hdrained⟩ := drains cap r .err (h.free hc .err)
    have hpc₁ : r₁.pc = .joinErr exit := hdrained.pc.trans hpc
    have hstep : taskStep cap r₁ .poll = some { r₁ with pc := .returned exit } := by
      simp only [taskStep, hpc₁, hdrained.done, Bool.false_eq_true, if_false]
    refine ⟨as ++ [.poll], { r₁ with pc := .returned exit }, exit, ?_, rfl⟩
    rw [taskSteps_append, hrun, Option.bind_some, taskSteps, hstep]
    rfl
  | returned exit => exact ⟨[], r, exit, rfl, hpc⟩

/-! ## Being stuck -/

/-- A pipe that is still read is held by a process other than the direct child. -/
def Blocked (r : CommandRun) (s : StdStream) : Prop :=
  (r.pipe s).collecting = true ∧ none ∉ (r.pipe s).buffer ∧ ∃ ends ∈ r.others, ends s = true

theorem not_unheld_iff : ¬ r.Unheld ↔ ∃ s, r.Blocked s := by
  simp only [Unheld, givesUp, Blocked, not_forall, not_or, Bool.not_eq_false, exists_prop,
    and_assoc]

/-- **No step of the task frees the pipe.** -/
theorem Blocked.taskStep {s : StdStream} {a : TaskAct} (h : r.Blocked s)
    (hs : taskStep cap r a = some r') : r'.Blocked s := by
  obtain ⟨hcol, hbuf, ends, hmem, hends⟩ := h
  cases a with
  | fire =>
    simp only [LlmCtl.taskStep] at hs
    split at hs
    · obtain rfl := Option.some.inj hs
      exact ⟨hcol, hbuf, ends, hmem, hends⟩
    · exact absurd hs (by simp)
  | poll =>
    obtain ⟨hpipe, hothers, -⟩ := poll_cases hs
    rw [Blocked, hpipe, hothers]
    exact ⟨hcol, hbuf, ends, hmem, hends⟩
  | collect t =>
    by_cases hst : s = t
    · subst hst
      obtain ⟨-, ⟨line, rest, heq, rfl⟩ | ⟨rest, heq, -⟩ | ⟨-, hheld, -⟩⟩ := collectCapped_cases hs
      · refine ⟨by rw [setPipe_self], ?_, ends, hmem, hends⟩
        rw [setPipe_self]
        rw [heq] at hbuf
        exact fun hnone => hbuf (List.mem_cons_of_mem _ hnone)
      · rw [heq] at hbuf
        exact absurd List.mem_cons_self hbuf
      · have hany : r.held s = true := by
          rw [held, List.any_eq_true.mpr ⟨ends, hmem, hends⟩, Bool.or_true]
        exact absurd (hheld.symm.trans hany) (by simp)
    · obtain ⟨-, ⟨line, rest, -, rfl⟩ | ⟨rest, -, rfl⟩ | ⟨-, -, rfl⟩⟩ := collectCapped_cases hs
      all_goals
        rw [Blocked, setPipe_of_ne _ _ hst]
        exact ⟨hcol, hbuf, ends, hmem, hends⟩

/-- A task with such a pipe has not returned. -/
theorem Blocked.not_returned {s : StdStream} (h : r.Blocked s) (hok : r.Ok)
    (exit : Option ExitStatus) : r.pc ≠ .returned exit := by
  intro hpc
  have hend := hok.ended s (by cases s <;> simp [past, hpc])
  exact absurd (h.1.symm.trans hend) (by simp)

end CommandRun

end LlmCtl
