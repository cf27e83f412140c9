/-
# One tracked worker

The supervisor owns at most one live `llama-server`, and the recorded pid leads to it.
The invariant `Tracked` ties the process table to `pid`, `model_id` and the program
point of the lock's owner.  It is kept by every step but three: one that gives a new
child the pid of a child whose wait task has yet to run its section, one that
drops a handler's future at the await between `cmd.spawn()` and the section that
records the pid, and a KILL that is not delivered, since `stop_inner` clears the pid
all the same.
-/
import LlmCtl.Lifecycle

namespace LlmCtl

open EventSystem

/-! ## Filters on the steps of a run -/

/-- The pid that the system gives to a new process. -/
def Act.newPid : Act → Option ℕ
  | .exec (.spawned pid) => some pid
  | .appear pid _ => some pid
  | _ => none

/-- The pid that the system gives to a new child. -/
def Act.childPid : Act → Option ℕ
  | .exec (.spawned pid) => some pid
  | _ => none

/-- Does the action drop the future of a handler? -/
def Act.isDrop : Act → Bool
  | .dropWaiting _ | .dropHolder => true
  | _ => false

/-- Does the action drop the future of the lock's owner? -/
def Act.dropsOwner : Act → Bool
  | .dropHolder => true
  | _ => false

/-- Does a call of `/bin/kill` send no signal? -/
def Act.isUnsent : Act → Bool
  | .killFails => true
  | _ => false

/-- The model whose worker is about to be created. -/
def Crit.creating : Crit → Option Model
  | .spawn _ m .exec => some m
  | _ => none

/-- Is a child created and not yet recorded? -/
def Crit.isRecording : Crit → Bool
  | .spawn _ _ (.record _ _) => true
  | _ => false

/-- Is the owner about to send the KILL? -/
def Crit.isKilling : Crit → Bool
  | .stopInner _ (.killIfAlive _) => true
  | _ => false

/-- Pids are not reused: a new process has a pid no earlier one had. -/
def FreshPids (s : Sup) (a : Act) : Prop :=
  ∀ pid ∈ a.newPid, ∀ c ∈ s.procs, c.pid ≠ pid

/-- The command line of a new child mentions `llama-server`. -/
def NamesProgram (cfg : Config) (s : Sup) (a : Act) : Prop :=
  ∀ _ ∈ a.childPid, ∀ m ∈ s.holder.bind Crit.creating,
    mentionsLlamaServer (workerCmdline cfg m loopback) = true

/-- No new child gets the pid of a child whose wait task is past its `wait()` and has yet
to compare that pid with the recorded one. -/
def SettledPids (s : Sup) (a : Act) : Prop :=
  ∀ pid ∈ a.childPid, ∀ c ∈ s.procs, c.wait = .exited → c.pid ≠ pid

/-- No handler is dropped between `cmd.spawn()` and the pid write. -/
def KeepsChild (s : Sup) (a : Act) : Prop :=
  a.dropsOwner = true → s.holder.any Crit.isRecording = false

/-- Every KILL is delivered: `/bin/kill -KILL` runs, and the process that has the pid dies. -/
def DeliversKill (s : Sup) (a : Act) : Prop :=
  a.isUnsent = true → s.holder.any Crit.isKilling = false

/-- The system behaves: pids are not reused, command lines name the program and every KILL
is delivered. -/
def Behaved (cfg : Config) (_ : List Event) (s : Sup) (a : Act) : Prop :=
  FreshPids s a ∧ NamesProgram cfg s a ∧ DeliversKill s a

/-- The system behaves, and handler futures run to completion. -/
def Orderly (cfg : Config) (tr : List Event) (s : Sup) (a : Act) : Prop :=
  Behaved cfg tr s a ∧ a.isDrop = false

/-- The filter of the runs in which no worker is lost. -/
def Kept (cfg : Config) (_ : List Event) (s : Sup) (a : Act) : Prop :=
  NamesProgram cfg s a ∧ DeliversKill s a ∧ SettledPids s a ∧ KeepsChild s a

section Decidable

variable (cfg : Config) (tr : List Event) (s : Sup) (a : Act)

instance : Decidable (FreshPids s a) :=
  inferInstanceAs (Decidable (∀ pid ∈ a.newPid, ∀ c ∈ s.procs, c.pid ≠ pid))

instance : Decidable (NamesProgram cfg s a) :=
  inferInstanceAs (Decidable (∀ _ ∈ a.childPid, ∀ m ∈ s.holder.bind Crit.creating,
    mentionsLlamaServer (workerCmdline cfg m loopback) = true))

instance : Decidable (SettledPids s a) :=
  inferInstanceAs (Decidable (∀ pid ∈ a.childPid, ∀ c ∈ s.procs, c.wait = .exited →
    c.pid ≠ pid))

instance : Decidable (KeepsChild s a) :=
  inferInstanceAs (Decidable (a.dropsOwner = true → s.holder.any Crit.isRecording = false))

instance : Decidable (DeliversKill s a) :=
  inferInstanceAs (Decidable (a.isUnsent = true → s.holder.any Crit.isKilling = false))

instance : Decidable (Behaved cfg tr s a) :=
  inferInstanceAs (Decidable (FreshPids s a ∧ NamesProgram cfg s a ∧ DeliversKill s a))

instance : Decidable (Orderly cfg tr s a) :=
  inferInstanceAs (Decidable (Behaved cfg tr s a ∧ a.isDrop = false))

instance : Decidable (Kept cfg tr s a) :=
  inferInstanceAs (Decidable (NamesProgram cfg s a ∧ DeliversKill s a ∧ SettledPids s a ∧
    KeepsChild s a))

end Decidable

theorem Act.newPid_of_childPid {a : Act} {pid : ℕ} (h : pid ∈ a.childPid) :
    pid ∈ a.newPid := by
  cases a with
  | exec o => cases o <;> simp_all [Act.childPid, Act.newPid]
  | _ => simp [Act.childPid] at h

/-- With a binary that is called `llama-server`, every command line names the program. -/
theorem namesProgram_of_binary {cfg : Config} (h : argMentions cfg.binary = true) (s : Sup)
    (a : Act) : NamesProgram cfg s a :=
  fun _ _ m _ => mentionsLlamaServer_worker h m loopback

/-- Fresh pids are settled. -/
theorem FreshPids.settled {s : Sup} {a : Act} (h : FreshPids s a) : SettledPids s a :=
  fun pid hpid c hc _ => h pid (Act.newPid_of_childPid hpid) c hc

theorem Orderly.kept {cfg : Config} {tr : List Event} {s : Sup} {a : Act}
    (h : Orderly cfg tr s a) : Kept cfg tr s a := by
  obtain ⟨⟨hfresh, hname, hkill⟩, hdrop⟩ := h
  refine ⟨hname, hkill, hfresh.settled, fun howner => ?_⟩
  cases a <;> simp_all [Act.isDrop, Act.dropsOwner]

/-! ## The properties -/

/-- Every live child outside a running `spawn` call is the one recorded in `pid`. -/
def NoOrphan (s : Sup) : Prop :=
  ∀ (i : ℕ) (c : Proc), s.procs[i]? = some c → c.live = true →
    s.st.pid = some c.pid ∨
      ∃ caller m, s.holder = some (.spawn caller m (.record i c.pid))

/-- At most one child is alive. -/
def AtMostOneLive (s : Sup) : Prop :=
  ∀ (i j : ℕ) (c c' : Proc), s.procs[i]? = some c → c.live = true →
    s.procs[j]? = some c' → c'.live = true → i = j

/-- A recorded pid belongs to a child launched for exactly the recorded model. -/
def PidNamesModel (s : Sup) : Prop :=
  ∀ pid, s.st.pid = some pid → ∃ (i : ℕ) (c : Proc) (m : Model), s.procs[i]? = some c ∧
    c.pid = pid ∧ c.launchedFor = some m ∧ s.st.modelId = some m.id

/-! ## The invariant -/

/-- What the owner's program point says about the table: nobody is alive when
`stop_inner` finishes, and the child about to be recorded was launched for the
announced model. -/
def Crit.Tracks (modelId : Option String) (procs : List Proc) : Crit → Prop
  | .stopInner _ .finish => ∀ (i : ℕ) (c : Proc), procs[i]? = some c → c.live = false
  | .spawn _ m .exec => modelId = some m.id
  | .spawn _ m (.record i pid) =>
    modelId = some m.id ∧
      ∃ c : Proc, procs[i]? = some c ∧ c.pid = pid ∧ c.launchedFor = some m
  | _ => True

/-- **The invariant**: pids in use are distinct, every child's command line names the
program, wait tasks are where they belong, and the live children are the recorded one or
the one being recorded, launched for the recorded model. -/
structure Tracked (s : Sup) : Prop where
  distinct : ∀ (i j : ℕ) (c d : Proc), s.procs[i]? = some c → s.procs[j]? = some d →
    c.inUse = true → d.inUse = true → c.pid = d.pid → i = j
  mentions : ∀ (i : ℕ) (c : Proc), s.procs[i]? = some c → c.launchedFor.isSome →
    mentionsLlamaServer c.cmdline = true
  waited : ∀ (i : ℕ) (c : Proc), s.procs[i]? = some c → c.WaitOk
  recorded : PidNamesModel s
  live : NoOrphan s
  models : ∀ (i : ℕ) (c : Proc) (m : Model), s.procs[i]? = some c → c.live = true →
    c.launchedFor = some m → s.st.modelId = some m.id
  owner : ∀ c, s.holder = some c → c.Tracks s.st.modelId s.procs

/-- A child past its `wait` is dead, so the pid recorded for a live child is not its. -/
theorem Tracked.pid_ne_of_exited {s : Sup} (h : Tracked s) {i j : ℕ} {c d : Proc}
    (hc : s.procs[i]? = some c) (hw : c.wait = .exited) (hd : s.procs[j]? = some d)
    (hlive : d.live = true) : d.pid ≠ c.pid := by
  intro hpid
  have hok := h.waited i c hc
  have hij : j = i := h.distinct j i d c hd hc (Proc.inUse_of_live hlive)
    (Proc.inUse_of_exited hok hw) hpid
  subst hij
  obtain rfl : d = c := Option.some.inj (hd.symm.trans hc)
  rw [hok.2 hw] at hlive
  exact absurd hlive Bool.false_ne_true

/-- While nothing is recorded and no child is being recorded, nobody is alive. -/
theorem Tracked.no_live {s : Sup} (h : Tracked s) (hp : s.st.pid = none)
    (hr : ∀ caller m i pid, s.holder ≠ some (.spawn caller m (.record i pid))) :
    ∀ (i : ℕ) (c : Proc), s.procs[i]? = some c → c.live = false := by
  intro i c hc
  cases hl : c.live with
  | false => rfl
  | true =>
    rcases h.live i c hc hl with hpid | ⟨caller, m, hh⟩
    · rw [hp] at hpid
      exact absurd hpid (by simp)
    · exact absurd hh (hr _ _ _ _)

/-- The state changes outside the table, the pid and the model; the owner moves. -/
theorem Tracked.moved {s s' : Sup} (h : Tracked s) (hprocs : s'.procs = s.procs)
    (hpid : s'.st.pid = s.st.pid) (hmodel : s'.st.modelId = s.st.modelId)
    (hr : ∀ caller m i pid, s.holder = some (.spawn caller m (.record i pid)) →
      s'.holder = s.holder)
    (ho : ∀ c, s'.holder = some c → c.Tracks s.st.modelId s.procs) : Tracked s' where
  distinct := by rw [hprocs]; exact h.distinct
  mentions := by rw [hprocs]; exact h.mentions
  waited := by rw [hprocs]; exact h.waited
  models := by rw [hprocs, hmodel]; exact h.models
  recorded := by
    unfold PidNamesModel
    rw [hprocs, hpid, hmodel]
    exact h.recorded
  live := by
    unfold NoOrphan
    rw [hprocs, hpid]
    intro i c hc hl
    rcases h.live i c hc hl with hp | ⟨caller, m, hh⟩
    · exact .inl hp
    · exact .inr ⟨caller, m, by rw [hr _ _ _ _ hh, hh]⟩
  owner := by rw [hprocs, hmodel]; exact ho

/-- A step that leaves the owner where it is. -/
theorem Tracked.same {s s' : Sup} (h : Tracked s) (hprocs : s'.procs = s.procs)
    (hpid : s'.st.pid = s.st.pid) (hmodel : s'.st.modelId = s.st.modelId)
    (hh : s'.holder = s.holder) : Tracked s' :=
  h.moved hprocs hpid hmodel (fun _ _ _ _ _ => hh) (by rw [hh]; exact h.owner)

/-- An edit of the table that revives nobody. -/
theorem Tracked.edited {s : Sup} {procs' : List Proc} (h : Tracked s)
    (he : Edited s.procs procs')
    (hw : ∀ (i : ℕ) (c : Proc), procs'[i]? = some c → c.WaitOk) :
    Tracked { s with procs := procs' } where
  distinct := by
    intro i j c' d' hc' hd' huc hud hpid
    obtain ⟨c, hc, hpc, -, -, -, hc'⟩ := he.back hc'
    obtain ⟨d, hd, hpd, -, -, -, hd'⟩ := he.back hd'
    exact h.distinct i j c d hc hd (hc' huc) (hd' hud) (by rw [← hpc, ← hpd, hpid])
  mentions := by
    intro i c' hc' hl
    obtain ⟨c, hc, -, hlaunch, hcmd, -⟩ := he.back hc'
    rw [hcmd]
    exact h.mentions i c hc (by rwa [← hlaunch])
  waited := hw
  recorded := by
    intro pid hpid
    obtain ⟨i, c, m, hc, hcp, hcm, hid⟩ := h.recorded pid hpid
    obtain ⟨c', hc', hp', hl'⟩ := he.forth hc
    exact ⟨i, c', m, hc', hp'.trans hcp, hl'.trans hcm, hid⟩
  live := by
    intro i c' hc' hl'
    obtain ⟨c, hc, hpid, -, -, hlive, -⟩ := he.back hc'
    rw [hpid]
    exact h.live i c hc (hlive hl')
  models := by
    intro i c' m hc' hl' hm
    obtain ⟨c, hc, -, hlaunch, -, hlive, -⟩ := he.back hc'
    exact h.models i c m hc (hlive hl') (hlaunch ▸ hm)
  owner := by
    intro o ho
    have hold := h.owner o ho
    cases o with
    | stopInner caller pc =>
      cases pc with
      | finish =>
        intro i c' hc'
        obtain ⟨c, hc, -, -, -, hlive, -⟩ := he.back hc'
        have hdead : c.live = false := hold i c hc
        cases hl : c'.live with
        | false => rfl
        | true =>
          rw [hlive hl] at hdead
          exact absurd hdead (by simp)
      | _ => trivial
    | spawn caller m pc =>
      cases pc with
      | record i pid =>
        obtain ⟨hid, c, hc, hcp, hcm⟩ := hold
        obtain ⟨c', hc', hp', hl'⟩ := he.forth hc
        exact ⟨hid, c', hc', hp'.trans hcp, hl'.trans hcm⟩
      | exec => exact hold
      | _ => trivial
    | _ => trivial

/-- An edit of one entry. -/
theorem Tracked.modified {s : Sup} {f : Proc → Proc} {i : ℕ} {c : Proc} (h : Tracked s)
    (hc : s.procs[i]? = some c) (hp : (f c).pid = c.pid)
    (hl : (f c).launchedFor = c.launchedFor) (hcmd : (f c).cmdline = c.cmdline)
    (hlive : (f c).live = true → c.live = true)
    (huse : (f c).inUse = true → c.inUse = true) (hw : (f c).WaitOk) :
    Tracked { s with procs := s.procs.modify i f } := by
  refine h.edited (edited_modify hc hp hl hcmd hlive huse) fun j d hd => ?_
  rw [List.getElem?_modify] at hd
  by_cases hij : i = j
  · subst hij
    obtain rfl : f c = d := by simpa [hc] using hd
    exact hw
  · exact h.waited j d (by simpa [hij] using hd)

/-- Clearing the pid when the child it names, if any, is dead. -/
theorem Tracked.cleared {s : Sup} {st : WorkerState} (h : Tracked s) (hpid : st.pid = none)
    (hmodel : st.modelId = s.st.modelId)
    (hdead : ∀ (i : ℕ) (c : Proc), s.procs[i]? = some c → s.st.pid = some c.pid → c.live = false) :
    Tracked { s with st := st } where
  distinct := h.distinct
  mentions := h.mentions
  waited := h.waited
  recorded := by
    intro pid hp
    exact absurd (hpid.symm.trans hp) (by simp)
  live := by
    intro i c hc hl
    rcases h.live i c hc hl with hp | hr
    · rw [hdead i c hc hp] at hl
      exact absurd hl Bool.false_ne_true
    · exact .inr hr
  models := by
    intro i c m hc hl hm
    exact hmodel.trans (h.models i c m hc hl hm)
  owner := by
    intro c hc
    have ho := h.owner c hc
    rw [← hmodel] at ho
    exact ho

/-- A process joins the table; a new child must have a pid that is not in use, and be the
one that the owner is about to record. -/
theorem Tracked.joined {s : Sup} (h : Tracked s) (c₀ : Proc)
    (hfresh : c₀.inUse = true → ∀ c ∈ s.procs, c.inUse = true → c.pid ≠ c₀.pid)
    (hcmd : c₀.launchedFor.isSome → mentionsLlamaServer c₀.cmdline = true)
    (hwait : c₀.wait = .absent) {holder : Option Crit}
    (hlive : c₀.live = true →
      ∃ caller m, holder = some (.spawn caller m (.record s.procs.length c₀.pid)))
    (hmodel : ∀ m, c₀.launchedFor = some m → s.st.modelId = some m.id)
    (hr : ∀ caller m i pid, s.holder = some (.spawn caller m (.record i pid)) →
      holder = s.holder)
    (ho : ∀ c, holder = some c → c.Tracks s.st.modelId (s.procs ++ [c₀])) :
    Tracked { s with procs := s.procs ++ [c₀], holder := holder } where
  distinct := by
    intro i j c d hc hd huc hud hpid
    rcases ListTable.getElem?_concat_cases hc with hci | ⟨hi, rfl⟩
    · rcases ListTable.getElem?_concat_cases hd with hdj | ⟨-, rfl⟩
      · exact h.distinct i j c d hci hdj huc hud hpid
      · exact absurd hpid (hfresh hud c (List.mem_of_getElem? hci) huc)
    · rcases ListTable.getElem?_concat_cases hd with hdj | ⟨hj, -⟩
      · exact absurd hpid.symm (hfresh huc d (List.mem_of_getElem? hdj) hud)
      · rw [hi, hj]
  mentions := by
    intro i c hc hl
    rcases ListTable.getElem?_concat_cases hc with hold | ⟨-, rfl⟩
    · exact h.mentions i c hold hl
    · exact hcmd hl
  waited := by
    intro i c hc
    rcases ListTable.getElem?_concat_cases hc with hold | ⟨-, rfl⟩
    · exact h.waited i c hold
    · exact ⟨fun hw => absurd hwait hw, fun hw => absurd (hwait.symm.trans hw) (by simp)⟩
  recorded := by
    intro pid hp
    obtain ⟨i, c, m, hc, hrest⟩ := h.recorded pid hp
    exact ⟨i, c, m, ListTable.getElem?_concat_of_some hc, hrest⟩
  live := by
    intro i c hc hl
    rcases ListTable.getElem?_concat_cases hc with hold | ⟨rfl, rfl⟩
    · rcases h.live i c hold hl with hp | ⟨caller, m, hh⟩
      · exact .inl hp
      · exact .inr ⟨caller, m, (hr _ _ _ _ hh).trans hh⟩
    · exact .inr (hlive hl)
  models := by
    intro i c m hc hl hm
    rcases ListTable.getElem?_concat_cases hc with hold | ⟨-, rfl⟩
    · exact h.models i c m hold hl hm
    · exact hmodel m hm
  owner := ho

/-! ## Every step keeps it -/

/-- Before the KILL a live child is the one with the recorded pid. -/
theorem Tracked.pid_of_kill {s : Sup} (h : Tracked s) (hp : s.PidOk) {caller : StopCaller}
    {pid : ℕ} (hc : s.holder = some (.stopInner caller (.killIfAlive pid))) {i : ℕ} {c : Proc}
    (hci : s.procs[i]? = some c) (hl : c.live = true) : c.pid = pid := by
  rcases h.live i c hci hl with hpid | ⟨_, _, hh⟩
  · rcases hp _ hc with hnone | hsome
    · rw [hnone] at hpid
      exact absurd hpid (by simp)
    · exact Option.some.inj (hpid.symm.trans hsome)
  · rw [hc] at hh
    exact absurd hh (by simp)

theorem CritMove.tracks {s : Sup} {c c' : Crit} (hm : CritMove s c c')
    (hc : s.holder = some c) (hp : s.PidOk) (h : Tracked s) :
    c'.Tracks s.st.modelId s.procs := by
  cases hm with
  | noPid caller hpid => exact h.no_live hpid (by simp [hc])
  | gone caller pid hdead =>
    intro i d hd
    cases hl : d.live with
    | false => rfl
    | true =>
      have hlaunch : d.launchedFor.isSome = true := by
        simp only [Proc.live, Bool.and_eq_true] at hl
        exact hl.1
      have hne := not_live_of_not_pidAlive hdead (List.mem_of_getElem? hd) hl
        (h.mentions i d hd hlaunch)
      exact absurd (h.pid_of_kill hp hc hd hl) hne
  | _ => trivial

theorem CritMove.not_record {s : Sup} {c c' : Crit} (hm : CritMove s c c')
    (caller : Spawner) (m : Model) (i pid : ℕ) : c ≠ .spawn caller m (.record i pid) := by
  cases hm <;> simp

/-- After a KILL of the recorded pid nobody is alive. -/
theorem Tracked.no_live_of_kill {s : Sup} (h : Tracked s) (hp : s.PidOk) {caller : StopCaller}
    {pid : ℕ} (hc : s.holder = some (.stopInner caller (.killIfAlive pid))) :
    ∀ (i : ℕ) (c : Proc), (sigkill s.procs pid)[i]? = some c → c.live = false := by
  intro i c' hc'
  rw [sigkill, List.getElem?_map] at hc'
  obtain ⟨c, hci, rfl⟩ := Option.map_eq_some_iff.mp hc'
  cases hl : (c.killed pid).live with
  | false => rfl
  | true =>
    obtain ⟨hlive, hne⟩ := Proc.live_of_killed hl
    exact absurd (h.pid_of_kill hp hc hci hlive) hne

/-- The owner moves to another program point. -/
theorem Tracked.goes_to {s s' : Sup} {c : Crit} (h : Tracked s) (hprocs : s'.procs = s.procs)
    (hpid : s'.st.pid = s.st.pid) (hmodel : s'.st.modelId = s.st.modelId)
    (hr : ∀ caller m i pid, s.holder ≠ some (.spawn caller m (.record i pid)))
    (hc : s'.holder = some c) (ht : c.Tracks s.st.modelId s.procs) : Tracked s' := by
  refine h.moved hprocs hpid hmodel (fun _ _ _ _ hh => absurd hh (hr _ _ _ _)) fun d hd => ?_
  obtain rfl : c = d := Option.some.inj (hc.symm.trans hd)
  exact ht

section Cases

variable {cfg : Config} {s : Sup}

/-- A process that is no child appears. -/
theorem Tracked.appeared (h : Tracked s) (pid : ℕ) (cmdline : List String) :
    Tracked { s with procs := s.procs ++ [stranger pid cmdline] } := by
  refine h.joined (stranger pid cmdline) (fun hu => absurd hu (by simp [Proc.inUse, stranger]))
    (fun hl => absurd hl (by simp [stranger])) rfl (fun hl => absurd hl (by simp))
    (fun m hm => absurd hm (by simp [stranger])) (fun _ _ _ _ _ => rfl) fun c hc => ?_
  have ho := h.owner c hc
  cases c with
  | stopInner caller pc =>
    cases pc with
    | finish =>
      intro i d hd
      rcases ListTable.getElem?_concat_cases hd with hold | ⟨-, rfl⟩
      · exact ho i d hold
      · rfl
    | _ => trivial
  | spawn caller m pc =>
    cases pc with
    | record i pid' =>
      obtain ⟨hid, d, hd, hrest⟩ := ho
      exact ⟨hid, d, ListTable.getElem?_concat_of_some hd, hrest⟩
    | exec => exact ho
    | _ => trivial
  | _ => trivial

/-- A wait task takes notice of the exit of its child. -/
theorem Tracked.noticed (h : Tracked s) {i : ℕ} {c : Proc} (hc : s.procs[i]? = some c)
    (hw : c.wait = .exited) :
    Tracked { s with
      st := s.st.childExited c.pid, procs := s.procs.modify i Proc.waitDone } := by
  -- The child is past its `wait`, so the pid it clears is no live child's.
  have h₁ : Tracked { s with st := s.st.childExited c.pid } := by
    rcases s.st.childExited_cases c.pid with ⟨-, heq⟩ | ⟨hpid, hnone, -⟩
    · rw [heq]
      exact h
    · refine h.cleared hnone (by simp) fun j d hd hdp => ?_
      cases hl : d.live with
      | false => rfl
      | true =>
        have hne := h.pid_ne_of_exited hc hw hd hl
        exact absurd (Option.some.inj (hdp.symm.trans hpid)) hne
  exact h₁.modified hc rfl rfl rfl (fun hl => by simpa using hl)
    Proc.inUse_of_waitDone ((h.waited i c hc).waitDone hw)

/-- The KILL is delivered. -/
theorem Tracked.killed (h : Tracked s) (hp : s.PidOk) {caller : StopCaller} {pid : ℕ}
    (hc : s.holder = some (.stopInner caller (.killIfAlive pid))) :
    Tracked ({ s with procs := sigkill s.procs pid }.goto (.stopInner caller .finish)) := by
  have h₁ : Tracked { s with procs := sigkill s.procs pid } :=
    h.edited (edited_sigkill _ _) fun i c hci => by
      rw [sigkill, List.getElem?_map] at hci
      obtain ⟨d, hd, rfl⟩ := Option.map_eq_some_iff.mp hci
      exact (h.waited i d hd).killed pid
  -- Whoever was alive had the recorded pid, and dies.
  exact h₁.goes_to rfl rfl rfl (by simp [hc]) rfl (h.no_live_of_kill hp hc)

/-- `stop_inner` clears the pid. -/
theorem Tracked.finished (h : Tracked s) {caller : StopCaller}
    (hc : s.holder = some (.stopInner caller .finish)) :
    Tracked (afterStop { s with st := s.st.markStopped } caller).1 := by
  have hdead : ∀ (i : ℕ) (c : Proc), s.procs[i]? = some c → c.live = false := h.owner _ hc
  have h₁ : Tracked { s with st := s.st.markStopped } :=
    h.cleared rfl rfl fun i c hci _ => hdead i c hci
  refine h₁.moved (by simp) (by simp) (by simp) (by simp [hc]) fun d hd => ?_
  cases caller with
  | startModel m =>
    obtain rfl := Option.some.inj hd
    trivial
  | maybeRestart m =>
    obtain rfl := Option.some.inj hd
    trivial
  | stop => exact absurd hd (by simp [afterStop])
  | shutdown => exact absurd hd (by simp [afterStop])

/-- `spawn` announces another model: it gets here only without a recorded pid, so nobody is
alive. -/
theorem Tracked.begun (h : Tracked s) (hp : s.PidOk) {caller : Spawner} {m : Model}
    (hc : s.holder = some (.spawn caller m .begin)) :
    Tracked ({ s with st := s.st.beginSpawn m s.clock }.goto (.spawn caller m .exec)) := by
  have hnone : s.st.pid = none := hp _ hc
  have hdead := h.no_live hnone (by simp [hc])
  exact
    { distinct := h.distinct
      mentions := h.mentions
      waited := h.waited
      recorded := fun pid hpid => absurd (hnone.symm.trans hpid) (by simp)
      live := fun i c hci hl => by
        rw [hdead i c hci] at hl
        exact absurd hl Bool.false_ne_true
      models := fun i c m' hci hl => by
        rw [hdead i c hci] at hl
        exact absurd hl Bool.false_ne_true
      owner := fun d hd => by
        obtain rfl := Option.some.inj hd
        rfl }

/-- The child of a `spawn` call joins the table. -/
theorem Tracked.launched (h : Tracked s) {caller : Spawner} {m : Model} {pid : ℕ}
    (hc : s.holder = some (.spawn caller m .exec)) (hfree : pidFree s.procs pid = true)
    (hname : mentionsLlamaServer (workerCmdline cfg m loopback) = true)
    (hsettled : ∀ c ∈ s.procs, c.wait = .exited → c.pid ≠ pid) :
    Tracked ({ s with procs := s.procs ++ [newChild cfg m loopback pid] }.goto
      (.spawn caller m (.record s.procs.length pid))) := by
  refine h.joined (newChild cfg m loopback pid) (fun _ c hci huse hpid => ?_)
    (fun _ => hname) rfl (fun _ => ⟨caller, m, rfl⟩) (fun m' hm' => ?_) (by simp [hc])
    fun d hd => ?_
  · -- The system hands out a free pid, and no wait task with this pid is pending.
    have hfree' := List.all_eq_true.mp hfree c hci
    simp only [Proc.inUse, Bool.and_eq_true, Bool.or_eq_true, bne_iff_ne, ne_eq,
      beq_iff_eq] at huse hfree'
    rcases huse.2 with hrun | hw
    · rcases hfree' with hne | hre
      · exact hne hpid
      · exact hrun hre
    · exact hsettled c hci hw hpid
  · obtain rfl : m = m' := by simpa using hm'
    exact h.owner _ hc
  · obtain rfl := Option.some.inj hd
    exact ⟨h.owner _ hc, newChild cfg m loopback pid, by simp, rfl, rfl⟩

/-- The child of a `spawn` call, the only one alive, becomes the recorded one. -/
theorem Tracked.wrotePid (h : Tracked s) (hp : s.PidOk) {caller : Spawner} {m : Model}
    {child pid : ℕ} (hc : s.holder = some (.spawn caller m (.record child pid))) :
    Tracked ({ s with
      st := s.st.recordPid pid, procs := s.procs.modify child Proc.startWait }.release) := by
  have hnone : s.st.pid = none := hp _ hc
  have h₁ : Tracked { s with procs := s.procs.modify child Proc.startWait } := by
    obtain ⟨-, c, hci, -, hcm⟩ := h.owner _ hc
    exact h.modified hci rfl rfl rfl (fun hl => by simpa using hl)
      Proc.inUse_of_startWait (Proc.WaitOk.startWait (by simp [hcm]))
  obtain ⟨hid, c, hci, hcp, hcm⟩ := h₁.owner _ hc
  exact
    { distinct := h₁.distinct
      mentions := h₁.mentions
      waited := h₁.waited
      recorded := fun pid' hpid' => by
        obtain rfl : pid = pid' := Option.some.inj hpid'
        exact ⟨child, c, m, hci, hcp, hcm, hid⟩
      live := fun i d hd hl => by
        rcases h₁.live i d hd hl with hpid | ⟨caller', m', hh⟩
        · exact absurd (hnone.symm.trans hpid) (by simp)
        · have heq := Option.some.inj (hc.symm.trans hh)
          injection heq with _ _ hpc
          injection hpc with _ hpid
          exact .inl (by rw [hpid]; rfl)
      models := h₁.models
      owner := fun d hd => absurd hd (by simp) }

/-- Every step that the filter allows keeps the invariant. -/
theorem Step.tracked {s' : Sup} {a : Act} {tr ev : List Event} (hs : Step cfg s a ev s')
    (hok : Kept cfg tr s a) (hp : s.PidOk) (h : Tracked s) : Tracked s' := by
  obtain ⟨hname, hkill, hsettled, hkeep⟩ := hok
  cases hs with
  | exit i c hc hrun =>
    exact h.modified hc rfl rfl rfl (fun hl => absurd hl (by simp))
      (Proc.inUse_of_die hrun) (h.waited i c hc).die
  | appear pid cmdline hfree => exact h.appeared pid cmdline
  | reap i c hc hw hz =>
    exact h.modified hc rfl rfl rfl (fun hl => absurd hl (by simp))
      (Proc.inUse_of_reap hz) ((h.waited i c hc).reap hw)
  | waitSection i c hc hw => exact h.noticed hc hw
  | dropHolder c hc hh ha =>
    -- The one await at which a child would be lost is excluded.
    have hnot : c.isRecording = false := by simpa [hc] using hkeep rfl
    refine h.moved rfl rfl rfl (fun caller m i pid hr => ?_) (by simp)
    obtain rfl := Option.some.inj (hc.symm.trans hr)
    exact absurd hnot (by simp [Crit.isRecording])
  | grant w ws hh hq =>
    refine h.goes_to rfl rfl rfl (by simp [hh]) (Sup.goto_holder _ _) ?_
    cases w <;> trivial
  | move c c' hc hm =>
    refine h.goes_to rfl rfl rfl (fun caller m i pid hr => ?_) (Sup.goto_holder _ _)
      (hm.tracks hc hp h)
    exact absurd (Option.some.inj (hc.symm.trans hr)) (hm.not_record _ _ _ _)
  | running m hc => exact h.moved rfl rfl rfl (by simp [hc]) (by simp)
  | setStopping caller pid hc => exact h.goes_to rfl rfl rfl (by simp [hc]) rfl trivial
  | term caller pid hc => exact h.goes_to rfl rfl rfl (by simp [hc]) rfl trivial
  | kill caller pid hc => exact h.killed hp hc
  | termFails caller pid hc => exact h.goes_to rfl rfl rfl (by simp [hc]) rfl trivial
  | killFails caller pid hc halive =>
    exact absurd (hkill rfl) (by simp [hc, Crit.isKilling])
  | finish caller hc => exact h.finished hc
  | reset m hc => exact h.goes_to rfl rfl rfl (by simp [hc]) rfl trivial
  | spawnReturn caller m ok pc hc hpc =>
    refine h.moved (by simp) (by simp) (by simp) (fun caller' m' i pid hr => ?_) (by simp)
    rw [hc] at hr
    rcases hpc with ⟨rfl, -⟩ | rfl <;> exact absurd hr (by simp)
  | begin caller m hc => exact h.begun hp hc
  | launched caller m pid hc hfree =>
    exact h.launched hc hfree (hname pid rfl m (by simp [hc, Crit.creating])) (hsettled pid rfl)
  | execFailed caller m e hc => exact h.goes_to rfl rfl rfl (by simp [hc]) rfl trivial
  | failed caller m e hc =>
    -- The error path clears a pid that was not there.
    have hnone : s.st.pid = none := hp _ hc
    have h₁ : Tracked { s with st := s.st.spawnFailed e } :=
      h.cleared rfl rfl fun i c _ hpid => by
        rw [hnone] at hpid
        exact absurd hpid (by simp)
    exact h₁.moved (by simp) (by simp) (by simp) (by simp [hc]) (by simp)
  | record caller m child pid hc =>
    exact (h.wrotePid hp hc).moved (by simp) (by simp) (by simp) (by simp) (by simp)
  | recovered m hc hcr => exact h.moved rfl rfl rfl (by simp [hc]) (by simp)
  | count m hc =>
    rcases countStep_cases s m cfg with ⟨heq, -⟩ | ⟨heq, -⟩
    · rw [heq]
      exact h.moved rfl rfl rfl (by simp [hc]) (by simp)
    · rw [heq]
      exact h.goes_to rfl rfl rfl (by simp [hc]) rfl trivial
  | write ok status startedAt hpoll => exact h.same rfl (by simp) (by simp) rfl
  | _ => exact h.same rfl rfl rfl rfl

end Cases

/-- **The invariant** holds in every run that the filter allows. -/
theorem tracked_of_run {cfg : Config} {tr : List Event} {s : Sup}
    (h : (supervisor cfg).Run (Kept cfg) tr s) : Tracked s := by
  refine h.invariant (I := fun _ s => Tracked s) ?_ ?_
  · rintro s ⟨autostart, rfl⟩
    exact
      { distinct := fun i j c d hc => absurd hc (by simp [Sup.init])
        mentions := fun i c hc => absurd hc (by simp [Sup.init])
        waited := fun i c hc => absurd hc (by simp [Sup.init])
        recorded := fun pid hp => absurd hp (by simp [Sup.init, WorkerState.new])
        live := fun i c hc => absurd hc (by simp [Sup.init])
        models := fun i c m hc => absurd hc (by simp [Sup.init])
        owner := fun c hc => by
          cases autostart with
          | none => exact absurd hc (by simp [Sup.init])
          | some m =>
            obtain rfl := Option.some.inj hc
            trivial }
  · intro tr s a s' ev hrun hok hs htracked
    exact (step_cases hs).tracked hok (pidOk_of_run hrun) htracked

/-! ## Results -/

/-- Two live children would both be recorded, or both be the child of one `spawn` call. -/
theorem Tracked.atMostOneLive {s : Sup} (h : Tracked s) (hp : s.PidOk) : AtMostOneLive s := by
  intro i j c d hc hlc hd hld
  rcases h.live i c hc hlc with hpc | ⟨caller, m, hhc⟩
  · rcases h.live j d hd hld with hpd | ⟨caller, m, hhd⟩
    · have hpid : c.pid = d.pid := Option.some.inj (hpc.symm.trans hpd)
      exact h.distinct i j c d hc hd (Proc.inUse_of_live hlc) (Proc.inUse_of_live hld) hpid
    · have hnone : s.st.pid = none := hp _ hhd
      exact absurd (hnone.symm.trans hpc) (by simp)
  · rcases h.live j d hd hld with hpd | ⟨caller', m', hhd⟩
    · have hnone : s.st.pid = none := hp _ hhc
      exact absurd (hnone.symm.trans hpd) (by simp)
    · have hcrit := Option.some.inj (hhc.symm.trans hhd)
      injection hcrit with _ _ hpc
      injection hpc

/-- **One tracked worker.**  When pids are not reused, command lines name the program and
handlers run to completion, at most one child is alive, a recorded pid belongs to a child
launched for the recorded model, and a live child is unrecorded only inside its own
`spawn` call. -/
theorem single_tracked_worker {cfg : Config} {tr : List Event} {s : Sup}
    (h : (supervisor cfg).Run (Orderly cfg) tr s) :
    AtMostOneLive s ∧ PidNamesModel s ∧ NoOrphan s := by
  have hkept : (supervisor cfg).Run (Kept cfg) tr s := h.mono fun _ _ _ ho => ho.kept
  have htracked := tracked_of_run hkept
  exact ⟨htracked.atMostOneLive (pidOk_of_run h), htracked.recorded, htracked.live⟩

/-- A worker is started and replaced by a worker for another model. -/
theorem single_tracked_worker_switch :
    ∃ tr s, (supervisor sampleConfig).Run (Orderly sampleConfig) tr s ∧ s.procs.length = 2 ∧
      s.st.pid = some 8 ∧ AtMostOneLive s ∧ PidNamesModel s ∧ NoOrphan s := by
  have hreach := Run.reaches (supervisor sampleConfig) (Orderly sampleConfig)
    (startFully modelA 7 ++ [.callStart modelB, .grant, .run, .run, .run, .run, .run, .exit 0,
      .run, .run, .reap 0, .run, .run, .run, .run, .exec (.spawned 8), .run, .waitSection 0])
    (fun _ s => s.procs.length = 2 ∧ s.st.pid = some 8) ⟨none, rfl⟩ (by decide)
    (by decide)
  obtain ⟨tr, s, hrun, hp⟩ := hreach
  obtain ⟨hlen, hpid⟩ := of_decide_eq_true hp
  exact ⟨tr, s, hrun, hlen, hpid, single_tracked_worker hrun⟩

/-- **No orphan** in a run whose handlers may be dropped anywhere but between
`cmd.spawn()` and the pid write. -/
theorem no_orphan_of_kept {cfg : Config} {tr : List Event} {s : Sup}
    (h : (supervisor cfg).Run (Kept cfg) tr s) : NoOrphan s :=
  (tracked_of_run h).live

/-- A handler is dropped while it stops the worker for a switch; the worker stays recorded. -/
theorem no_orphan_of_kept_dropped_switch :
    ∃ tr s, (supervisor sampleConfig).Run (Kept sampleConfig) tr s ∧ s.holder = none ∧
      s.procs[0]?.any Proc.live ∧ NoOrphan s := by
  have hreach := Run.reaches (supervisor sampleConfig) (Kept sampleConfig)
    (startFully modelA 7 ++ [.callStart modelB, .grant, .run, .run, .run, .dropHolder])
    (fun _ s => s.holder = none ∧ s.procs[0]?.any Proc.live) ⟨none, rfl⟩ (by decide)
    (by decide)
  obtain ⟨tr, s, hrun, hp⟩ := hreach
  obtain ⟨hfree, hlive⟩ := of_decide_eq_true hp
  exact ⟨tr, s, hrun, hfree, hlive, no_orphan_of_kept hrun⟩

/-- **An orphan**: although the system behaves, a handler dropped at the await after
`cmd.spawn()` leaves a live child that nothing leads to. -/
theorem dropped_spawn_leaves_orphan :
    ∃ tr s, (supervisor sampleConfig).Run (Behaved sampleConfig) tr s ∧ ¬ NoOrphan s := by
  have hreach := Run.reaches (supervisor sampleConfig) (Behaved sampleConfig)
    (startUntilExec modelA ++ [.exec (.spawned 7), .dropHolder])
    (fun _ s => s.procs[0]?.any Proc.live ∧ s.st.pid = none ∧ s.holder = none)
    ⟨none, rfl⟩ (by decide) (by decide)
  obtain ⟨tr, s, hrun, hp⟩ := hreach
  obtain ⟨hlive, hpid, hfree⟩ := of_decide_eq_true hp
  refine ⟨tr, s, hrun, fun horphan => ?_⟩
  obtain ⟨c, hc, hl⟩ := (Option.any_eq_true _ _).mp hlive
  rcases horphan 0 c hc hl with hrec | ⟨caller, m, hspawn⟩
  · exact absurd (hpid.symm.trans hrec) (by simp)
  · exact absurd (hfree.symm.trans hspawn) (by simp)

end LlmCtl
