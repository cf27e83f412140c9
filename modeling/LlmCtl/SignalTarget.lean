/-
# Who gets the signals of `stop_inner`?

`stop_inner` reads the recorded pid once.  It sends `TERM` to it at once, and `KILL` after a look
at `/proc` (`pid_alive`).  Meanwhile the worker may exit and be waited for, and its pid may go to
another process.  A signal reaches the process that runs under the pid; a zombie, or nobody, takes
no notice.

* `pidAlive_of_kill`, `uniquePids_of_run`: a look that finds the program, under a pid that only one
  process can hold, protects the `KILL` in every run.
* `signals_only_servers`: the `TERM` has no such look.  It is safe as long as no foreign process has
  the pid when it is read, and none gets it before the signal.
-/
import LlmCtl.SupervisorStep

namespace LlmCtl

open EventSystem

/-! ## The property and the condition -/

/-- Whoever runs under the pid has `llama-server` in its command line. -/
def OnlyServers (procs : List Proc) (pid : ℕ) : Prop :=
  ∀ c ∈ procs, c.pid = pid → c.status = .running → mentionsLlamaServer c.cmdline = true

/-- Does `stop_inner` read the pid next? -/
def Crit.readsPid : Crit → Bool
  | .stopInner _ .readPid => true
  | _ => false

/-- The pid that `stop_inner` has read and not yet sent `TERM` to. -/
def Crit.termTarget : Crit → Option ℕ
  | .stopInner _ (.setStopping pid) | .stopInner _ (.term pid) => some pid
  | _ => none

/-- `stop_inner` reads a pid under which no foreign process runs, and none appears under it before
the `TERM`. -/
def OwnPid (_ : List Event) (s : Sup) : Act → Prop
  | .run => s.holder.any Crit.readsPid = true → ∀ pid ∈ s.st.pid, OnlyServers s.procs pid
  | .appear pid cmdline =>
    s.holder.bind Crit.termTarget = some pid → mentionsLlamaServer cmdline = true
  | _ => True

instance (procs : List Proc) (pid : ℕ) : Decidable (OnlyServers procs pid) :=
  inferInstanceAs (Decidable (∀ c ∈ procs, _))

instance (tr : List Event) (s : Sup) (a : Act) : Decidable (OwnPid tr s a) := by
  unfold OwnPid
  split <;> infer_instance

/-! ## Processes that end -/

/-- `procs'` is `procs` with some processes ended: none gets another pid or command line, none
starts to run, and no pid comes back. -/
def Ended (procs procs' : List Proc) : Prop :=
  ∀ (j : ℕ) (c' : Proc), procs'[j]? = some c' → ∃ c, procs[j]? = some c ∧ c'.pid = c.pid ∧
    c'.cmdline = c.cmdline ∧ (c'.status = .running → c.status = .running) ∧
    (c'.status ≠ .reaped → c.status ≠ .reaped)

/-- No two processes hold one pid. -/
def UniquePids (procs : List Proc) : Prop :=
  ∀ (i j : ℕ) (c d : Proc), procs[i]? = some c → procs[j]? = some d → c.status ≠ .reaped →
    d.status ≠ .reaped → c.pid = d.pid → i = j

section Processes

variable {procs procs' : List Proc} {pid : ℕ}

theorem ended_modify {f : Proc → Proc} {i : ℕ}
    (h : ∀ c, procs[i]? = some c → (f c).pid = c.pid ∧ (f c).cmdline = c.cmdline ∧
      ((f c).status = .running → c.status = .running) ∧
      ((f c).status ≠ .reaped → c.status ≠ .reaped)) : Ended procs (procs.modify i f) := by
  intro j c' hj
  rw [List.getElem?_modify] at hj
  by_cases hij : i = j
  · subst hij
    obtain ⟨c, hc, rfl⟩ : ∃ c, procs[i]? = some c ∧ f c = c' := by simpa using hj
    exact ⟨c, hc, h c hc⟩
  · exact ⟨c', by simpa [hij] using hj, rfl, rfl, id, id⟩

theorem ended_sigkill (procs : List Proc) (pid : ℕ) : Ended procs (sigkill procs pid) := by
  intro j c' hj
  rw [sigkill, List.getElem?_map] at hj
  obtain ⟨c, hc, rfl⟩ := Option.map_eq_some_iff.mp hj
  refine ⟨c, hc, by simp, by simp, ?_, ?_⟩
  · unfold Proc.killed
    split
    · next h => exact fun _ => h.2
    · exact id
  · unfold Proc.killed
    split
    · next h => exact fun _ => by simp [h.2]
    · exact id

theorem OnlyServers.ended (h : OnlyServers procs pid) (he : Ended procs procs') :
    OnlyServers procs' pid := by
  intro c' hmem hpid hrun
  obtain ⟨j, hj⟩ := List.mem_iff_getElem?.mp hmem
  obtain ⟨c, hc, hp, hcmd, hrunning, -⟩ := he j c' hj
  rw [hcmd]
  exact h c (List.mem_of_getElem? hc) (hp ▸ hpid) (hrunning hrun)

/-- A process appears under another pid, or names the program. -/
theorem OnlyServers.concat (h : OnlyServers procs pid) {c : Proc}
    (hc : c.pid = pid → mentionsLlamaServer c.cmdline = true) :
    OnlyServers (procs ++ [c]) pid := by
  intro d hmem hpid hrun
  rcases List.mem_append.mp hmem with hold | hnew
  · exact h d hold hpid hrun
  · obtain rfl := List.mem_singleton.mp hnew
    exact hc hpid

theorem UniquePids.ended (h : UniquePids procs) (he : Ended procs procs') :
    UniquePids procs' := by
  intro i j c' d' hi hj hc' hd' hpid
  obtain ⟨c, hc, hcp, -, -, hcr⟩ := he i c' hi
  obtain ⟨d, hd, hdp, -, -, hdr⟩ := he j d' hj
  exact h i j c d hc hd (hcr hc') (hdr hd') (hcp ▸ hdp ▸ hpid)

/-- The system gives a new process a pid that nobody holds. -/
theorem UniquePids.concat (h : UniquePids procs) {x : Proc} (hfree : pidFree procs x.pid = true) :
    UniquePids (procs ++ [x]) := by
  have hold : ∀ (i : ℕ) (c : Proc), procs[i]? = some c → c.status ≠ .reaped → c.pid ≠ x.pid := by
    intro i c hi hc
    have hpid := List.all_eq_true.mp hfree c (List.mem_of_getElem? hi)
    simpa [hc] using hpid
  intro i j c d hi hj hc hd hpid
  rcases ListTable.getElem?_concat_cases hi with hi' | ⟨hi', hcx⟩
  · rcases ListTable.getElem?_concat_cases hj with hj' | ⟨-, hdx⟩
    · exact h i j c d hi' hj' hc hd hpid
    · exact absurd (hpid.trans (congrArg Proc.pid hdx)) (hold i c hi' hc)
  · rcases ListTable.getElem?_concat_cases hj with hj' | ⟨hj', -⟩
    · exact absurd (hpid.symm.trans (congrArg Proc.pid hcx)) (hold j d hj' hd)
    · rw [hi', hj']

/-- **The look of `pid_alive`** speaks for whoever holds the pid. -/
theorem UniquePids.onlyServers (h : UniquePids procs) (halive : pidAlive procs pid = true) :
    OnlyServers procs pid := by
  obtain ⟨d, hmem, hd⟩ := List.any_eq_true.mp halive
  simp only [Bool.and_eq_true, beq_iff_eq] at hd
  obtain ⟨⟨hdpid, hdrun⟩, hdcmd⟩ := hd
  intro c hc hcpid hcrun
  obtain ⟨i, hi⟩ := List.mem_iff_getElem?.mp hc
  obtain ⟨j, hj⟩ := List.mem_iff_getElem?.mp hmem
  have hij : i = j := h i j c d hi hj (by simp [hcrun]) (by simp [hdrun]) (hcpid.trans hdpid.symm)
  subst hij
  obtain rfl : c = d := Option.some.inj (hi.symm.trans hj)
  exact hdcmd

end Processes

/-! ## The steps -/

section Step

variable {cfg : Config} {s s' : Sup} {a : Act} {ev : List Event}

/-- A table edit by `f`, which neither starts a process nor brings a pid back. -/
theorem ended_modify_of_status {procs : List Proc} {f : Proc → Proc} (i : ℕ)
    (hpid : ∀ c, (f c).pid = c.pid) (hcmd : ∀ c, (f c).cmdline = c.cmdline)
    (hstatus : ∀ c, (f c).status = c.status ∨ (f c).status = .reaped) :
    Ended procs (procs.modify i f) := by
  refine ended_modify fun c _ => ⟨hpid c, hcmd c, ?_, ?_⟩
  · rcases hstatus c with h | h <;> simp [h]
  · rcases hstatus c with h | h <;> simp [h]

/-- **A step ends processes or adds one** under a pid that nobody holds. -/
theorem Step.procs (hs : Step cfg s a ev s') :
    Ended s.procs s'.procs ∨
      ∃ x, s'.procs = s.procs ++ [x] ∧ pidFree s.procs x.pid = true ∧
        ((∃ cmdline, a = .appear x.pid cmdline ∧ x.cmdline = cmdline) ∨
          s'.holder.bind Crit.termTarget = none) := by
  have hsame : ∀ procs : List Proc, Ended procs procs :=
    fun procs j c hj => ⟨c, hj, rfl, rfl, id, id⟩
  cases hs with
  | exit i c hc hrun =>
    refine .inl (ended_modify fun d hd => ⟨rfl, rfl, ?_, ?_⟩)
    · obtain rfl : c = d := Option.some.inj (hc.symm.trans hd)
      exact fun _ => hrun
    · obtain rfl : c = d := Option.some.inj (hc.symm.trans hd)
      simp [hrun]
  | appear pid cmdline hfree =>
    exact .inr ⟨stranger pid cmdline, rfl, hfree, .inl ⟨cmdline, rfl, rfl⟩⟩
  | reap i c hc hw hz =>
    exact .inl (ended_modify_of_status i (fun _ => rfl) (fun _ => rfl) fun _ => .inr rfl)
  | waitSection i c hc hw =>
    exact .inl (ended_modify_of_status i (fun _ => rfl) (fun _ => rfl) fun _ => .inl rfl)
  | kill caller pid hc => exact .inl (ended_sigkill s.procs pid)
  | launched caller m pid hc hfree => exact .inr ⟨_, rfl, hfree, .inr rfl⟩
  | record caller m child pid hc =>
    rw [spawnReturned_procs]
    exact .inl (ended_modify_of_status child (fun _ => rfl) (fun _ => rfl) fun _ => .inl rfl)
  | finish caller hc =>
    rw [afterStop_procs]
    exact .inl (hsame _)
  | spawnReturn caller m ok pc hc hpc =>
    rw [spawnReturned_procs]
    exact .inl (hsame _)
  | failed caller m e hc =>
    rw [spawnReturned_procs]
    exact .inl (hsame _)
  | count m hc =>
    rw [countStep_procs]
    exact .inl (hsame _)
  | _ => exact .inl (hsame _)

/-- A pid that is about to get a `TERM` was so before, or has just been read. -/
theorem Step.termTarget (hs : Step cfg s a ev s') {pid : ℕ}
    (h : s'.holder.bind Crit.termTarget = some pid) :
    s.holder.bind Crit.termTarget = some pid ∨
      (a = .run ∧ s.holder.any Crit.readsPid = true ∧ s.st.pid = some pid ∧
        s'.procs = s.procs) := by
  cases hs with
  | dropHolder c hc hh ha => simp at h
  | grant w ws hh hq => cases w <;> simp [Waiter.entry, Crit.termTarget] at h
  | move c c' hc hm =>
    cases hm with
    | readPid caller p hp =>
      obtain rfl : p = pid := by simpa [Crit.termTarget] using h
      exact .inr ⟨rfl, by simp [hc, Crit.readsPid], hp, rfl⟩
    | _ => simp [Crit.termTarget] at h
  | setStopping caller p hc => exact .inl (by simpa [hc, Crit.termTarget] using h)
  | finish caller hc => cases caller <;> simp [afterStop, Crit.termTarget] at h
  | count m hc =>
    rcases countStep_holder s m cfg with heq | heq
    · simp [heq] at h
    · simp [heq, Crit.termTarget] at h
  | running | term | kill | termFails | killFails | reset | spawnReturn | begin | launched
  | execFailed | failed | record | recovered => simp [Crit.termTarget] at h
  | _ => exact .inl h

/-- The signals of a step: a `TERM` to the pid that was read, or a `KILL` to a pid that the owner
looks at. -/
theorem Step.of_signalled (hs : Step cfg s a ev s') {sig : Signal} {pid : ℕ}
    (h : .signalled sig pid ∈ ev) :
    (sig = .term ∧ s.holder.bind Crit.termTarget = some pid) ∨
      (sig = .kill ∧ a = .run ∧ ∃ caller, s.holder = some (.stopInner caller (.killIfAlive pid)) ∧
        ev ≠ []) := by
  cases hs with
  | term caller p hc =>
    obtain ⟨rfl, rfl⟩ : sig = .term ∧ pid = p := by simpa using h
    exact .inl ⟨rfl, by simp [hc, Crit.termTarget]⟩
  | kill caller p hc =>
    obtain ⟨rfl, rfl⟩ : sig = .kill ∧ pid = p := by simpa using h
    exact .inr ⟨rfl, rfl, caller, hc, by simp⟩
  | finish caller hc => cases caller <;> simp [afterStop] at h
  | spawnReturn | failed | record => exact absurd (spawnReturned_events _ _ _ _ _ h) (by simp)
  | count m' hc => exact absurd (countStep_events m' _ h) (by simp)
  | _ => simp at h

/-- A `KILL` follows a look that found the program. -/
theorem pidAlive_of_kill {caller : StopCaller} {pid : ℕ}
    (hc : s.holder = some (.stopInner caller (.killIfAlive pid)))
    (hs : step cfg s .run = some (s', ev)) (hev : ev ≠ []) : pidAlive s.procs pid = true := by
  by_contra halive
  simp only [step, hc, holderStep, stopInnerStep, halive] at hs
  obtain ⟨-, rfl⟩ := Prod.mk.inj (Option.some.inj hs)
  exact hev rfl

end Step

/-! ## Runs -/

/-- No two processes hold one pid, in any run. -/
theorem uniquePids_of_run {cfg : Config} {ok : List Event → Sup → Act → Prop} {tr : List Event}
    {s : Sup} (h : (supervisor cfg).Run ok tr s) : UniquePids s.procs := by
  refine h.invariant (I := fun _ s => UniquePids s.procs) ?_ ?_
  · rintro s ⟨autostart, rfl⟩ i j c d hi
    exact absurd hi (by simp [Sup.init])
  · intro tr s a s' ev _ _ hs ih
    rcases (step_cases hs).procs with hended | ⟨x, hprocs, hfree, -⟩
    · exact ih.ended hended
    · rw [hprocs]
      exact ih.concat hfree

/-- The pid that is about to get a `TERM` is nobody else's. -/
theorem onlyServers_of_run {cfg : Config} {tr : List Event} {s : Sup}
    (h : (supervisor cfg).Run OwnPid tr s) :
    ∀ pid, s.holder.bind Crit.termTarget = some pid → OnlyServers s.procs pid := by
  refine h.invariant (I := fun _ s => ∀ pid, s.holder.bind Crit.termTarget = some pid →
    OnlyServers s.procs pid) ?_ ?_
  · rintro s ⟨autostart, rfl⟩ pid hpid
    cases autostart <;> simp [Sup.init, Crit.termTarget] at hpid
  · intro tr s a s' ev _ hok hs ih pid hpid
    have hstep := step_cases hs
    rcases hstep.termTarget hpid with hbefore | ⟨rfl, hreads, hp, hprocs⟩
    · rcases hstep.procs with hended | ⟨x, hprocs, -, ⟨cmdline, rfl, hcmd⟩ | hnone⟩
      · exact (ih pid hbefore).ended hended
      · rw [hprocs]
        refine (ih pid hbefore).concat fun hx => ?_
        rw [hcmd]
        exact hok (hbefore.trans (congrArg some hx.symm))
      · exact absurd (hnone.symm.trans hpid) (by simp)
    · rw [hprocs]
      exact hok hreads pid hp

/-- **Signals reach servers only**, in every run in which no foreign process runs under the pid
that `stop_inner` reads, or appears under it before the `TERM`. -/
theorem signals_only_servers {cfg : Config} {tr ev : List Event} {s s' : Sup} {a : Act}
    {sig : Signal} {pid : ℕ} (h : (supervisor cfg).Run OwnPid tr s)
    (hs : step cfg s a = some (s', ev)) (hsig : .signalled sig pid ∈ ev) :
    OnlyServers s.procs pid := by
  rcases (step_cases hs).of_signalled hsig with ⟨-, hterm⟩ | ⟨-, rfl, caller, hc, hev⟩
  · exact onlyServers_of_run h pid hterm
  · exact (uniquePids_of_run h).onlyServers (pidAlive_of_kill hc hs hev)

/-- A worker that ignores `TERM` gets the `KILL`. -/
theorem signals_only_servers_kill :
    ∃ tr s s', (supervisor sampleConfig).Run OwnPid tr s ∧
      step sampleConfig s .run = some (s', [.signalled .kill 7]) ∧ OnlyServers s.procs 7 := by
  have hreach := Run.reaches (supervisor sampleConfig) OwnPid
    (List.flatten [startFully modelA 7, [.callStop, .grant, .run, .run, .run],
      (List.replicate 10 [.run, .tick 500, .run]).flatten, [.run]])
    (fun _ s => decide (s.holder = some (.stopInner .stop (.killIfAlive 7)) ∧
      pidAlive s.procs 7 = true)) ⟨none, rfl⟩ (by decide) (by decide)
  obtain ⟨tr, s, hrun, hp⟩ := hreach
  obtain ⟨hc, halive⟩ := of_decide_eq_true hp
  have hs : step sampleConfig s .run =
      some ({ s with procs := sigkill s.procs 7 }.goto (.stopInner .stop .finish),
        [.signalled .kill 7]) := by
    simp [step, hc, holderStep, stopInnerStep, halive]
  exact ⟨tr, s, _, hrun, hs, signals_only_servers hrun hs List.mem_cons_self⟩

/-- The worker exits and is waited for between the read of its pid and the `TERM`, and a backup
that has got the pid is terminated. -/
theorem term_reaches_stranger :
    ¬ ∀ (tr : List Event) (s : Sup) (a : Act) (s' : Sup) (ev : List Event) (sig : Signal)
        (pid : ℕ), (supervisor sampleConfig).Run Anything tr s →
      step sampleConfig s a = some (s', ev) → .signalled sig pid ∈ ev →
      OnlyServers s.procs pid := by
  intro hall
  have hreach := Run.reaches (supervisor sampleConfig) Anything
    (List.flatten [startFully modelA 7, [.callStop, .grant, .run],
      [.exit 0, .reap 0, .appear 7 ["/usr/bin/backup", "--all"], .run]])
    (fun _ s => decide (s.holder = some (.stopInner .stop (.term 7)) ∧
      ¬ OnlyServers s.procs 7)) ⟨none, rfl⟩ (admits_anything _ _ _) (by decide)
  obtain ⟨tr, s, hrun, hp⟩ := hreach
  obtain ⟨hc, hforeign⟩ := of_decide_eq_true hp
  have hs : step sampleConfig s .run =
      some (s.goto (.stopInner .stop (.grace 7 10)), [.signalled .term 7]) := by
    simp [step, hc, holderStep, stopInnerStep]
  exact hforeign (hall tr s .run _ _ .term 7 hrun hs (by simp))

end LlmCtl
