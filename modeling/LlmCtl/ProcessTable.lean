/-
# The operating system's processes

Every process that matters to the supervisor is one entry of an append-only
table: the `llama-server` children it launched, and unrelated processes that may
take over a pid once its former owner was waited for.  An entry's index is its
identity; its pid is only a number, which the system may hand out again.

A child also carries the stage of its wait task (the `tokio::spawn` at the end of
`Supervisor::spawn`), since that task exists once for each child.
-/
import Mathlib.Data.List.Infix
import LlmCtl.ListTable
import LlmCtl.WorkerState

namespace LlmCtl

/-! ## The command line of a worker -/

/-- `Supervisor::spawn`: the argument list after the program. -/
def workerArgs (worker : Worker) (model : Model) (host : String) : List String :=
  worker.defaultArgs ++ ["-m", model.model, "--host", host, "--port", toString worker.port]

/-- `/proc/<pid>/cmdline` of a worker: the program and its arguments. -/
def workerCmdline (cfg : Config) (model : Model) (host : String) : List String :=
  cfg.binary :: workerArgs cfg.worker model host

/-- `contains("llama-server")` on one argument.  The arguments of a command line are
separated by NUL, which the word does not hold, so looking at each argument is
looking at the whole line. -/
def argMentions (arg : String) : Bool :=
  decide ("llama-server".toList <:+: arg.toList)

/-- The test that `pid_alive` makes on a command line. -/
def mentionsLlamaServer (cmdline : List String) : Bool := cmdline.any argMentions

/-- A worker's command line mentions `llama-server` when the configured binary does. -/
theorem mentionsLlamaServer_worker {cfg : Config} (h : argMentions cfg.binary = true)
    (model : Model) (host : String) :
    mentionsLlamaServer (workerCmdline cfg model host) = true := by
  simp [mentionsLlamaServer, workerCmdline, h]

/-! ## Processes -/

/-- A process runs, has exited but was not waited for (its `/proc` entry has an empty
command line), or is gone and its pid is free. -/
inductive ProcStatus where
  | running
  | zombie
  | reaped
  deriving DecidableEq, Repr

/-- The wait task of a child: not started, in `child.wait()`, past it and on its way
to its state section, or finished. -/
inductive WaitTask where
  | absent
  | waiting
  | exited
  | done
  deriving DecidableEq, Repr

/-- A process.  `launchedFor` is the model of the `spawn` call that created it,
`none` for a process that is not a child of the daemon. -/
structure Proc where
  pid : ℕ
  cmdline : List String
  launchedFor : Option Model
  status : ProcStatus
  wait : WaitTask
  deriving DecidableEq, Repr

namespace Proc

/-- A running child of the daemon. -/
def live (c : Proc) : Bool := c.launchedFor.isSome && c.status == .running

/-- Does the pid still mean this child to somebody: to the system, which keeps it until the
child was waited for, or to a wait task that has yet to compare it with the state? -/
def inUse (c : Proc) : Bool :=
  c.launchedFor.isSome && (c.status != .reaped || c.wait == .exited)

/-- Wait tasks belong to children, and one that is past its `wait` to a dead child. -/
def WaitOk (c : Proc) : Prop :=
  (c.wait ≠ .absent → c.launchedFor.isSome = true) ∧ (c.wait = .exited → c.live = false)

/-- The process ends.  A child stays a zombie until its wait task has waited for it;
other processes are waited for by their own parents. -/
def die (c : Proc) : Proc :=
  { c with status := if c.launchedFor.isSome then .zombie else .reaped }

/-- `SIGKILL` ends a running process. -/
def killed (pid : ℕ) (c : Proc) : Proc :=
  if c.pid = pid ∧ c.status = .running then c.die else c

/-- The wait task is started. -/
def startWait (c : Proc) : Proc := { c with wait := .waiting }

/-- `child.wait()` returns: the zombie is gone. -/
def reap (c : Proc) : Proc := { c with status := .reaped, wait := .exited }

/-- The wait task has run its state section. -/
def waitDone (c : Proc) : Proc := { c with wait := .done }

@[simp] theorem die_pid (c : Proc) : c.die.pid = c.pid := rfl
@[simp] theorem die_launchedFor (c : Proc) : c.die.launchedFor = c.launchedFor := rfl
@[simp] theorem die_cmdline (c : Proc) : c.die.cmdline = c.cmdline := rfl
@[simp] theorem die_wait (c : Proc) : c.die.wait = c.wait := rfl
@[simp] theorem startWait_pid (c : Proc) : c.startWait.pid = c.pid := rfl
@[simp] theorem startWait_launchedFor (c : Proc) : c.startWait.launchedFor = c.launchedFor := rfl
@[simp] theorem startWait_cmdline (c : Proc) : c.startWait.cmdline = c.cmdline := rfl
@[simp] theorem startWait_live (c : Proc) : c.startWait.live = c.live := rfl
@[simp] theorem reap_pid (c : Proc) : c.reap.pid = c.pid := rfl
@[simp] theorem reap_launchedFor (c : Proc) : c.reap.launchedFor = c.launchedFor := rfl
@[simp] theorem reap_cmdline (c : Proc) : c.reap.cmdline = c.cmdline := rfl
@[simp] theorem waitDone_pid (c : Proc) : c.waitDone.pid = c.pid := rfl
@[simp] theorem waitDone_launchedFor (c : Proc) : c.waitDone.launchedFor = c.launchedFor := rfl
@[simp] theorem waitDone_cmdline (c : Proc) : c.waitDone.cmdline = c.cmdline := rfl
@[simp] theorem waitDone_live (c : Proc) : c.waitDone.live = c.live := rfl

/-- A dead process is not live. -/
@[simp] theorem die_live (c : Proc) : c.die.live = false := by
  unfold live die
  cases c.launchedFor <;> rfl

@[simp] theorem reap_live (c : Proc) : c.reap.live = false := by
  simp [live, reap]

theorem inUse_of_live {c : Proc} (h : c.live = true) : c.inUse = true := by
  simp only [live, Bool.and_eq_true, beq_iff_eq] at h
  simp [inUse, h.1, h.2]

theorem inUse_of_exited {c : Proc} (hok : c.WaitOk) (h : c.wait = .exited) :
    c.inUse = true := by
  have hchild : c.launchedFor.isSome = true := hok.1 (by simp [h])
  simp [inUse, h, hchild]

theorem inUse_of_die {c : Proc} (hrun : c.status = .running) (h : c.die.inUse = true) :
    c.inUse = true := by
  simp_all [inUse]

theorem inUse_of_reap {c : Proc} (hz : c.status = .zombie) (h : c.reap.inUse = true) :
    c.inUse = true := by
  simp_all [inUse]

theorem inUse_of_waitDone {c : Proc} (h : c.waitDone.inUse = true) : c.inUse = true := by
  simp_all [inUse, waitDone]

theorem inUse_of_startWait {c : Proc} (h : c.startWait.inUse = true) : c.inUse = true := by
  simp_all [inUse, startWait]

theorem WaitOk.die {c : Proc} (h : c.WaitOk) : c.die.WaitOk :=
  ⟨h.1, fun _ => c.die_live⟩

theorem WaitOk.reap {c : Proc} (h : c.WaitOk) (hw : c.wait = .waiting) : c.reap.WaitOk :=
  ⟨fun _ => h.1 (by simp [hw]), fun _ => c.reap_live⟩

theorem WaitOk.waitDone {c : Proc} (h : c.WaitOk) (hw : c.wait = .exited) :
    c.waitDone.WaitOk :=
  ⟨fun _ => h.1 (by simp [hw]), fun hx => absurd hx (by simp [Proc.waitDone])⟩

theorem WaitOk.startWait {c : Proc} (hchild : c.launchedFor.isSome = true) :
    c.startWait.WaitOk :=
  ⟨fun _ => hchild, fun hx => absurd hx (by simp [Proc.startWait])⟩

@[simp] theorem killed_pid (pid : ℕ) (c : Proc) : (c.killed pid).pid = c.pid := by
  unfold killed; split <;> rfl

@[simp] theorem killed_launchedFor (pid : ℕ) (c : Proc) :
    (c.killed pid).launchedFor = c.launchedFor := by
  unfold killed; split <;> rfl

@[simp] theorem killed_wait (pid : ℕ) (c : Proc) : (c.killed pid).wait = c.wait := by
  unfold killed; split <;> rfl

@[simp] theorem killed_cmdline (pid : ℕ) (c : Proc) :
    (c.killed pid).cmdline = c.cmdline := by
  unfold killed; split <;> rfl

theorem inUse_of_killed {pid : ℕ} {c : Proc} (h : (c.killed pid).inUse = true) :
    c.inUse = true := by
  unfold killed at h
  split at h
  · next hc => exact inUse_of_die hc.2 h
  · exact h

theorem WaitOk.killed {c : Proc} (h : c.WaitOk) (pid : ℕ) : (c.killed pid).WaitOk := by
  unfold Proc.killed
  split
  · exact h.die
  · exact h

/-- A child that is live after a kill was live before, and has another pid. -/
theorem live_of_killed {pid : ℕ} {c : Proc} (h : (c.killed pid).live = true) :
    c.live = true ∧ c.pid ≠ pid := by
  unfold killed at h
  split at h
  · simp at h
  · next hne =>
    refine ⟨h, fun hp => hne ⟨hp, ?_⟩⟩
    simp only [live, Bool.and_eq_true, beq_iff_eq] at h
    exact h.2

end Proc

/-! ## The system's answers -/

/-- `pid_alive`: the pid exists and its command line still mentions `llama-server`. -/
def pidAlive (procs : List Proc) (pid : ℕ) : Bool :=
  procs.any fun c => c.pid == pid && c.status == .running && mentionsLlamaServer c.cmdline

/-- `/bin/kill -KILL`: the signal is delivered to whatever process has the pid. -/
def sigkill (procs : List Proc) (pid : ℕ) : List Proc := procs.map (Proc.killed pid)

/-- A pid can be handed out when no process, running or zombie, holds it. -/
def pidFree (procs : List Proc) (pid : ℕ) : Bool :=
  procs.all fun c => c.pid != pid || c.status == .reaped

/-- The child that a recorded pid stands for: the newest one launched with it. -/
def workerOf (procs : List Proc) (pid : ℕ) : Option ℕ :=
  ListTable.lastIdx (fun c => c.pid == pid && c.launchedFor.isSome) procs

/-- The table entry that `cmd.spawn()` creates; its wait task does not exist yet. -/
def newChild (cfg : Config) (model : Model) (host : String) (pid : ℕ) : Proc where
  pid := pid
  cmdline := workerCmdline cfg model host
  launchedFor := some model
  status := .running
  wait := .absent

/-- An unrelated process. -/
def stranger (pid : ℕ) (cmdline : List String) : Proc where
  pid := pid
  cmdline := cmdline
  launchedFor := none
  status := .running
  wait := .absent

@[simp] theorem newChild_pid (cfg : Config) (model : Model) (host : String) (pid : ℕ) :
    (newChild cfg model host pid).pid = pid := rfl
@[simp] theorem newChild_launchedFor (cfg : Config) (model : Model) (host : String) (pid : ℕ) :
    (newChild cfg model host pid).launchedFor = some model := rfl
@[simp] theorem newChild_wait (cfg : Config) (model : Model) (host : String) (pid : ℕ) :
    (newChild cfg model host pid).wait = .absent := rfl
@[simp] theorem stranger_live (pid : ℕ) (cmdline : List String) :
    (stranger pid cmdline).live = false := rfl
@[simp] theorem stranger_pid (pid : ℕ) (cmdline : List String) :
    (stranger pid cmdline).pid = pid := rfl

/-- What `pid_alive` rules out when it fails: a live child with that pid whose
command line mentions `llama-server`. -/
theorem not_live_of_not_pidAlive {procs : List Proc} {pid : ℕ} (h : pidAlive procs pid = false)
    {c : Proc} (hc : c ∈ procs) (hlive : c.live = true)
    (hm : mentionsLlamaServer c.cmdline = true) : c.pid ≠ pid := by
  intro hpid
  have hrun : c.status = .running := by
    simp only [Proc.live, Bool.and_eq_true, beq_iff_eq] at hlive
    exact hlive.2
  have halive : pidAlive procs pid = true :=
    List.any_eq_true.mpr ⟨c, hc, by simp [hpid, hrun, hm]⟩
  rw [h] at halive
  exact absurd halive Bool.false_ne_true

/-! ## Table edits -/

/-- `procs'` is `procs` with some entries edited: pids, origins and command lines stay,
nobody comes back to life, and no pid comes back into use. -/
structure Edited (procs procs' : List Proc) : Prop where
  back : ∀ {j : ℕ} {c' : Proc}, procs'[j]? = some c' → ∃ c, procs[j]? = some c ∧
    c'.pid = c.pid ∧ c'.launchedFor = c.launchedFor ∧ c'.cmdline = c.cmdline ∧
    (c'.live = true → c.live = true) ∧ (c'.inUse = true → c.inUse = true)
  forth : ∀ {j : ℕ} {c : Proc}, procs[j]? = some c → ∃ c', procs'[j]? = some c' ∧
    c'.pid = c.pid ∧ c'.launchedFor = c.launchedFor

/-- An edit of one entry. -/
theorem edited_modify {f : Proc → Proc} {procs : List Proc} {i : ℕ} {c : Proc}
    (hc : procs[i]? = some c) (hp : (f c).pid = c.pid)
    (hl : (f c).launchedFor = c.launchedFor) (hcmd : (f c).cmdline = c.cmdline)
    (hlive : (f c).live = true → c.live = true)
    (huse : (f c).inUse = true → c.inUse = true) : Edited procs (procs.modify i f) where
  back := by
    intro j c' hj
    rw [List.getElem?_modify] at hj
    by_cases hij : i = j
    · subst hij
      obtain rfl : f c = c' := by simpa [hc] using hj
      exact ⟨c, hc, hp, hl, hcmd, hlive, huse⟩
    · exact ⟨c', by simpa [hij] using hj, rfl, rfl, rfl, id, id⟩
  forth := by
    intro j d hj
    rw [List.getElem?_modify]
    by_cases hij : i = j
    · subst hij
      obtain rfl : c = d := Option.some.inj (hc.symm.trans hj)
      exact ⟨f c, by simp [hc], hp, hl⟩
    · exact ⟨d, by simp [hij, hj], rfl, rfl⟩

/-- A kill edits every entry. -/
theorem edited_sigkill (procs : List Proc) (pid : ℕ) : Edited procs (sigkill procs pid) where
  back := by
    intro j c' hj
    rw [sigkill, List.getElem?_map] at hj
    obtain ⟨c, hpj, rfl⟩ := Option.map_eq_some_iff.mp hj
    exact ⟨c, hpj, by simp, by simp, by simp, fun h => (Proc.live_of_killed h).1,
      Proc.inUse_of_killed⟩
  forth := by
    intro j c hj
    exact ⟨c.killed pid, by simp [sigkill, hj], by simp, by simp⟩

/-! ## The current worker under table edits -/

/-- Edits that keep pids and origins do not change which child a pid stands for. -/
theorem workerOf_modify {f : Proc → Proc} (hp : ∀ c, (f c).pid = c.pid)
    (hl : ∀ c, (f c).launchedFor = c.launchedFor) (procs : List Proc) (i pid : ℕ) :
    workerOf (procs.modify i f) pid = workerOf procs pid :=
  ListTable.lastIdx_modify (fun c => by simp [hp, hl]) procs i

theorem workerOf_sigkill (procs : List Proc) (target pid : ℕ) :
    workerOf (sigkill procs target) pid = workerOf procs pid :=
  ListTable.lastIdx_map (fun c => by simp) procs

/-- A stranger is never the worker. -/
theorem workerOf_stranger (procs : List Proc) (p : ℕ) (cmdline : List String) (pid : ℕ) :
    workerOf (procs ++ [stranger p cmdline]) pid = workerOf procs pid := by
  rw [workerOf, ListTable.lastIdx_concat]
  simp [stranger, workerOf]

end LlmCtl
