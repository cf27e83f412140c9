/-
# The watchdog of the jobs (`download.rs`, `rebuild.rs`)

The task of a job runs one command after another, each under a watchdog, and then writes the end
of the job.  `WatchedJob` puts the processes and the pipes of the commands beside a manager of
one job: where the manager's program waits for a command, the answer comes when the task has got
past both collectors.

Once the command has ended or the watchdog has fired, the task brings the job to its end by its
own steps just if no other process holds a pipe that is still read.
-/
import LlmCtl.OneJob
import LlmCtl.RunAndCollect

namespace LlmCtl

open EventSystem ListTable ClaimedRecord

/-! ## Jobs with commands -/

/-- What a program does with commands: where it waits for one, the capacity of the sink, and the
answers to a command that has ended and, if the task goes on then, to one that could not be
spawned. -/
structure Commands (P E : Type*) where
  awaits : P → Bool
  cap : ℕ
  answer : Option ExitStatus → List String → E
  unspawned : Option E

/-- A manager, and the command that each entry waits for. -/
structure WatchedJob (J P R : Type*) where
  manager : JobManager J P R
  runs : ℕ → Option CommandRun

inductive WatchAct (Q E : Type*) where
  /-- The manager goes on, at a point where no command is awaited. -/
  | manager (a : JobAct Q E)
  /-- The task of an entry spawns its command. -/
  | spawn (i : ℕ)
  /-- It cannot. -/
  | unspawned (i : ℕ)
  /-- The task waits on. -/
  | task (i : ℕ) (a : TaskAct)
  /-- The processes go on. -/
  | proc (i : ℕ) (a : ProcAct)
  /-- The task has got the end of its command. -/
  | answer (i : ℕ)

variable {J P R Q E : Type*}

/-- Does the entry wait for a command? -/
def Commands.awaitsAt (k : Commands P E) (m : JobManager J P R) (i : ℕ) : Bool :=
  (m.starts[i]?).any fun c => k.awaits c.pc

/-- Is this a step of an entry that waits for a command? -/
def Commands.awaitedBy (k : Commands P E) (m : JobManager J P R) : JobAct Q E → Bool
  | .go i _ => k.awaitsAt m i
  | _ => false

namespace WatchedJob

def setRun (w : WatchedJob J P R) (i : ℕ) (r : Option CommandRun) : WatchedJob J P R :=
  { w with runs := Function.update w.runs i r }

/-- The entry goes on with an answer, and has no command any more. -/
def goOn (p : JobProgram J P R Q E) (w : WatchedJob J P R) (i : ℕ) (e : E) :
    Option (WatchedJob J P R × List Event) :=
  (p.step w.manager (.go i e)).map fun r => (⟨r.1, Function.update w.runs i none⟩, r.2)

end WatchedJob

/-- One step. -/
def watchStep (p : JobProgram J P R Q E) (k : Commands P E) (w : WatchedJob J P R) :
    WatchAct Q E → Option (WatchedJob J P R × List Event)
  | .manager a =>
    if k.awaitedBy w.manager a then none
    else (p.step w.manager a).map fun r => ({ w with manager := r.1 }, r.2)
  | .spawn i =>
    if k.awaitsAt w.manager i && (w.runs i).isNone then
      some (w.setRun i (some .spawned), [])
    else none
  | .unspawned i =>
    match k.unspawned with
    | some e => if k.awaitsAt w.manager i && (w.runs i).isNone then w.goOn p i e else none
    | none => none
  | .task i a =>
    match w.runs i with
    | some r => (taskStep k.cap r a).map fun r => (w.setRun i (some r), [])
    | none => none
  | .proc i a =>
    match w.runs i with
    | some r => (procStep r a).map fun r => (w.setRun i (some r), [])
    | none => none
  | .answer i =>
    match w.runs i with
    | some r =>
      match r.pc with
      | .returned exit => w.goOn p i (k.answer exit r.sink)
      | _ => none
    | none => none

/-- The manager with its commands as a system. -/
def watched (p : JobProgram J P R Q E) (k : Commands P E) :
    EventSystem (WatchedJob J P R) (WatchAct Q E) Event where
  init := fun w => p.init w.manager ∧ w.runs = fun _ => none
  step := watchStep p k

/-- The commands of a download. -/
def downloadCommands : Commands DownloadPc DownloadEnv where
  awaits := fun
    | .child _ => true
    | _ => false
  cap := DownloadJob.logCap
  answer := .exited
  unspawned := none

/-- The commands of a rebuild: `run_and_collect`. -/
def rebuildCommands : Commands RebuildPc RebuildEnv where
  awaits := fun
    | .pull _ | .build _ _ _ => true
    | _ => false
  cap := RebuildJob.logCap
  answer := fun exit lines => .ran (exit.any ExitStatus.success) lines
  unspawned := some (.ran false ["spawn failed"])

/-! ## The property -/

/-- A step of the entry's own: of its task, its collectors and its timer, but not of the
processes. -/
def OwnStep (i : ℕ) : WatchAct Q E → Prop
  | .manager (.go j _) | .spawn j | .unspawned j | .task j _ | .answer j => j = i
  | _ => False

/-- The entry can bring the job to a final status by its own steps. -/
def CanFinish (p : JobProgram J P R Q E) (k : Commands P E) (final : J → Prop)
    (w : WatchedJob J P R) (i : ℕ) : Prop :=
  ∃ as : List (WatchAct Q E), (∀ a ∈ as, OwnStep i a) ∧
    ∃ w' ev, (watched p k).exec w as = some (w', ev) ∧ final w'.manager.job

/-- **The watchdog ends a job just if no other process holds a pipe.** -/
def EndsUnlessHeld (p : JobProgram J P R Q E) (k : Commands P E) (final : J → Prop) : Prop :=
  ∀ tr w i r, (watched p k).Run Anything tr w → w.runs i = some r → r.due →
    (CanFinish p k final w i ↔ r.Unheld)

/-- The entry comes to the end of the job, whatever its commands answer. -/
inductive Finishes (p : JobProgram J P R Q E) (k : Commands P E) (final : J → Prop) (i : ℕ) :
    JobManager J P R → Prop
  | done {m : JobManager J P R} (h : final m.job) : Finishes p k final i m
  | go {m m' : JobManager J P R} {e : E} {ev : List Event} (hfree : k.awaitsAt m i = false)
      (hs : p.step m (.go i e) = some (m', ev)) (h : Finishes p k final i m') :
      Finishes p k final i m
  | command {m : JobManager J P R} (hawaits : k.awaitsAt m i = true)
      (next : Option ExitStatus → List String → JobManager J P R × List Event)
      (hs : ∀ exit lines, p.step m (.go i (k.answer exit lines)) = some (next exit lines))
      (h : ∀ exit lines, Finishes p k final i (next exit lines).1) :
      Finishes p k final i m

/-- What the commands of a program must be like. -/
structure Commands.Sound (p : JobProgram J P R Q E) (k : Commands P E) (final : J → Prop) :
    Prop where
  holds : ∀ pc, k.awaits pc = true → p.holds pc = true
  stays : ∀ pc, k.awaits pc = true → p.atAwait pc = false
  apart : ∀ m i c e m' ev, m.starts[i]? = some c → p.go m i c e = some (m', ev) → ∀ j, j ≠ i →
    m'.starts[j]? = m.starts[j]?
  rests : ∀ job, final job → p.running job = false
  finishes : ∀ tr m i, p.system.Run Anything tr m → k.awaitsAt m i = true →
    Finishes p k final i m

/-! ## Runs -/

namespace WatchedJob

variable {p : JobProgram J P R Q E} {k : Commands P E} {final : J → Prop}
  {w w' : WatchedJob J P R} {tr ev : List Event}

theorem goOn_eq {i : ℕ} {e : E} (hs : w.goOn p i e = some (w', ev)) :
    p.step w.manager (.go i e) = some (w'.manager, ev) ∧
      w'.runs = Function.update w.runs i none := by
  obtain ⟨⟨m, evs⟩, hm, heq⟩ := Option.map_eq_some_iff.mp hs
  obtain ⟨rfl, rfl⟩ := Prod.mk.inj heq
  exact ⟨hm, rfl⟩

/-- What a step does: the manager goes on by itself, or with the answer to a command, or a command
goes on. -/
inductive WatchStep (p : JobProgram J P R Q E) (k : Commands P E) (w : WatchedJob J P R)
    (ev : List Event) (w' : WatchedJob J P R) : Prop
  | manager (a : JobAct Q E) (ha : k.awaitedBy w.manager a = false)
      (hs : p.step w.manager a = some (w'.manager, ev)) (hruns : w'.runs = w.runs)
  | goOn (i : ℕ) (e : E) (hs : p.step w.manager (.go i e) = some (w'.manager, ev))
      (hruns : w'.runs = Function.update w.runs i none)
  | run (i : ℕ) (r : CommandRun) (hok : (∀ q, w.runs i = some q → q.Ok) → r.Ok)
      (hawaits : (w.runs i).isSome = true ∨ k.awaitsAt w.manager i = true)
      (hw : w' = w.setRun i (some r)) (hev : ev = [])

theorem watchStep_cases {a : WatchAct Q E} (hs : watchStep p k w a = some (w', ev)) :
    WatchStep p k w ev w' := by
  cases a with
  | manager a =>
    simp only [watchStep] at hs
    split at hs
    · exact absurd hs (by simp)
    · next ha =>
      obtain ⟨⟨m, evs⟩, hm, heq⟩ := Option.map_eq_some_iff.mp hs
      obtain ⟨rfl, rfl⟩ := Prod.mk.inj heq
      exact .manager a (by simpa using ha) hm rfl
  | spawn i =>
    simp only [watchStep] at hs
    split at hs
    · next hawaits =>
      obtain ⟨rfl, rfl⟩ := Prod.mk.inj (Option.some.inj hs)
      rw [Bool.and_eq_true] at hawaits
      exact .run i .spawned (fun _ => CommandRun.ok_spawned) (.inr hawaits.1) rfl rfl
    · exact absurd hs (by simp)
  | unspawned i =>
    simp only [watchStep] at hs
    split at hs
    · split at hs
      · obtain ⟨hm, hruns⟩ := goOn_eq hs
        exact .goOn i _ hm hruns
      · exact absurd hs (by simp)
    · exact absurd hs (by simp)
  | task i a =>
    simp only [watchStep] at hs
    split at hs
    · next r hr =>
      obtain ⟨r', hstep, heq⟩ := Option.map_eq_some_iff.mp hs
      obtain ⟨rfl, rfl⟩ := Prod.mk.inj heq
      exact .run i r' (fun hok => (hok r hr).taskStep hstep) (.inl (by rw [hr]; rfl)) rfl rfl
    · exact absurd hs (by simp)
  | proc i a =>
    simp only [watchStep] at hs
    split at hs
    · next r hr =>
      obtain ⟨r', hstep, heq⟩ := Option.map_eq_some_iff.mp hs
      obtain ⟨rfl, rfl⟩ := Prod.mk.inj heq
      exact .run i r' (fun hok => (hok r hr).procStep hstep) (.inl (by rw [hr]; rfl)) rfl rfl
    · exact absurd hs (by simp)
  | answer i =>
    simp only [watchStep] at hs
    split at hs
    · split at hs
      · obtain ⟨hm, hruns⟩ := goOn_eq hs
        exact .goOn i _ hm hruns
      · exact absurd hs (by simp)
    · exact absurd hs (by simp)

/-- **The manager of a run is in a run of its own.** -/
theorem manager_of_run (h : (watched p k).Run Anything tr w) :
    p.system.Run Anything tr w.manager := by
  refine h.project WatchedJob.manager id rfl (fun _ _ => rfl) ?_ ?_
  · intro w hw
    exact hw.1
  · intro tr w a w' ev _ _ hs
    cases watchStep_cases hs with
    | manager a ha hs hruns => exact .inr ⟨a, trivial, hs⟩
    | goOn i e hs hruns => exact .inr ⟨.go i e, trivial, hs⟩
    | run i r hok hawaits hw hev => exact .inl ⟨by rw [hw]; rfl, hev⟩

/-- The entry whose command runs waits for it, and the command is in order. -/
def Ok (k : Commands P E) (w : WatchedJob J P R) : Prop :=
  ∀ i r, w.runs i = some r → r.Ok ∧ k.awaitsAt w.manager i = true

theorem awaitsAt_congr {m m' : JobManager J P R} {i : ℕ} (h : m'.starts[i]? = m.starts[i]?) :
    k.awaitsAt m' i = k.awaitsAt m i := by
  rw [Commands.awaitsAt, h, Commands.awaitsAt]

/-- A step of another entry, or of the manager, leaves an entry at its command. -/
theorem awaitsAt_step (hk : k.Sound p final) {m m' : JobManager J P R} {a : JobAct Q E} {i : ℕ}
    (hi : k.awaitsAt m i = true) (ha : ∀ e, a ≠ .go i e) (hs : p.step m a = some (m', ev)) :
    k.awaitsAt m' i = true := by
  obtain ⟨c, hc, hawaits⟩ := (Option.any_eq_true _ _).mp hi
  cases a with
  | call req =>
    obtain ⟨rfl, -⟩ := Prod.mk.inj (Option.some.inj hs)
    rw [Commands.awaitsAt, getElem?_concat_of_some hc]
    exact hawaits
  | go j e =>
    have hij : i ≠ j := fun h => ha e (by rw [h])
    simp only [JobProgram.step] at hs
    split at hs
    · next c hc => rw [awaitsAt_congr (hk.apart _ _ _ _ _ _ hc hs i hij), hi]
    · exact absurd hs (by simp)
  | drop j =>
    simp only [JobProgram.step] at hs
    split at hs
    · next d hd =>
      split at hs
      · next hawait =>
        obtain ⟨rfl, -⟩ := Prod.mk.inj (Option.some.inj hs)
        have hij : i ≠ j := by
          rintro rfl
          obtain rfl := Option.some.inj (hc.symm.trans hd)
          rw [hk.stays _ hawaits] at hawait
          exact absurd hawait Bool.false_ne_true
        rw [awaitsAt_congr ((updates_modify hd).other i hij), hi]
      · exact absurd hs (by simp)
    · exact absurd hs (by simp)

/-- **Every step keeps the commands in order.** -/
theorem Ok.step (hk : k.Sound p final) (h : Ok k w) (hs : WatchStep p k w ev w') : Ok k w' := by
  intro i r hr
  cases hs with
  | manager a ha hs hruns =>
    rw [hruns] at hr
    obtain ⟨hok, hi⟩ := h i r hr
    refine ⟨hok, awaitsAt_step hk hi ?_ hs⟩
    rintro e rfl
    rw [Commands.awaitedBy, hi] at ha
    exact absurd ha (by simp)
  | goOn j e hs hruns =>
    by_cases hij : i = j
    · subst hij
      rw [hruns, Function.update_self] at hr
      exact absurd hr (by simp)
    · rw [hruns, Function.update_of_ne hij] at hr
      obtain ⟨hok, hi⟩ := h i r hr
      refine ⟨hok, awaitsAt_step hk hi (fun e' heq => hij ?_) hs⟩
      exact ((JobAct.go.inj heq).1).symm
  | run j q hok hawaits hw hev =>
    subst hw
    have hrun : Function.update w.runs j (some q) i = some r := hr
    by_cases hij : i = j
    · subst hij
      rw [Function.update_self] at hrun
      obtain rfl := Option.some.inj hrun
      refine ⟨hok fun q hq => (h i q hq).1, ?_⟩
      rcases hawaits with hsome | hi
      · obtain ⟨q, hq⟩ := Option.isSome_iff_exists.mp hsome
        exact (h i q hq).2
      · exact hi
    · rw [Function.update_of_ne hij] at hrun
      exact h i r hrun

theorem ok_of_run (hk : k.Sound p final) (h : (watched p k).Run Anything tr w) : Ok k w := by
  refine h.invariant (I := fun _ w => Ok k w) ?_ ?_
  · rintro w ⟨-, hnone⟩ i r hr
    rw [hnone] at hr
    exact absurd hr (by simp)
  · intro tr w a w' ev _ _ hs hok
    exact hok.step hk (watchStep_cases hs)

/-! ## Being stuck -/

/-- **The task's own steps do not free a pipe.** -/
theorem blocked_step (hok : Ok k w) {i : ℕ} {r : CommandRun} (hr : w.runs i = some r)
    {s : StdStream} (hb : r.Blocked s) {a : WatchAct Q E} (ha : OwnStep i a)
    (hs : watchStep p k w a = some (w', ev)) :
    w'.manager = w.manager ∧ Ok k w' ∧ ∃ r', w'.runs i = some r' ∧ r'.Blocked s := by
  obtain ⟨hrok, hi⟩ := hok i r hr
  cases a with
  | manager a =>
    cases a with
    | go j e =>
      obtain rfl : j = i := ha
      simp only [watchStep, Commands.awaitedBy, hi, if_true] at hs
      exact absurd hs (by simp)
    | call req => exact absurd ha id
    | drop j => exact absurd ha id
  | spawn j =>
    obtain rfl : j = i := ha
    simp only [watchStep, hr, Option.isNone_some, Bool.and_false, Bool.false_eq_true,
      if_false] at hs
    exact absurd hs (by simp)
  | unspawned j =>
    obtain rfl : j = i := ha
    simp only [watchStep, hr, Option.isNone_some, Bool.and_false, Bool.false_eq_true,
      if_false] at hs
    split at hs <;> exact absurd hs (by simp)
  | task j a =>
    obtain rfl : j = i := ha
    simp only [watchStep, hr] at hs
    obtain ⟨r', hstep, heq⟩ := Option.map_eq_some_iff.mp hs
    obtain ⟨rfl, -⟩ := Prod.mk.inj heq
    refine ⟨rfl, ?_, r', Function.update_self j _ _, hb.taskStep hstep⟩
    intro n q hq
    have hrun : Function.update w.runs j (some r') n = some q := hq
    by_cases hnj : n = j
    · subst hnj
      rw [Function.update_self] at hrun
      obtain rfl := Option.some.inj hrun
      exact ⟨hrok.taskStep hstep, hi⟩
    · rw [Function.update_of_ne hnj] at hrun
      exact hok n q hrun
  | proc j a => exact absurd ha id
  | answer j =>
    obtain rfl : j = i := ha
    simp only [watchStep, hr] at hs
    split at hs
    · next exit hpc => exact absurd hpc (hb.not_returned hrok exit)
    · exact absurd hs (by simp)

theorem blocked_exec {as : List (WatchAct Q E)} {i : ℕ} {s : StdStream}
    (hown : ∀ a ∈ as, OwnStep i a) (hok : Ok k w) {r : CommandRun} (hr : w.runs i = some r)
    (hb : r.Blocked s) (hx : (watched p k).exec w as = some (w', ev)) : w'.manager = w.manager := by
  induction as generalizing w r ev with
  | nil =>
    obtain ⟨rfl, -⟩ := Prod.mk.inj (Option.some.inj hx)
    rfl
  | cons a as ih =>
    simp only [EventSystem.exec] at hx
    split at hx
    · exact absurd hx (by simp)
    · next w₁ ev₁ hs =>
      split at hx
      · exact absurd hx (by simp)
      · next w₂ ev₂ hx₂ =>
        obtain ⟨rfl, -⟩ := Prod.mk.inj (Option.some.inj hx)
        obtain ⟨hsame, hok₁, r₁, hr₁, hb₁⟩ :=
          blocked_step hok hr hb (hown a List.mem_cons_self) hs
        exact (ih (fun b hb => hown b (List.mem_cons_of_mem _ hb)) hok₁ hr₁ hb₁ hx₂).trans hsame

/-- An entry at a command has a running job. -/
theorem running_of_awaits (hp : p.Sound) (hk : k.Sound p final) {m : JobManager J P R}
    (h : p.system.Run Anything tr m) {i : ℕ} (hi : k.awaitsAt m i = true) :
    p.running m.job = true := by
  obtain ⟨c, hc, hawaits⟩ := (Option.any_eq_true _ _).mp hi
  exact hp.running_of_holds h hc (hk.holds _ hawaits)

/-- **A held pipe keeps the job from its end**, whatever the task does. -/
theorem not_canFinish_of_blocked (hp : p.Sound) (hk : k.Sound p final)
    (h : (watched p k).Run Anything tr w) {i : ℕ} {r : CommandRun} (hr : w.runs i = some r)
    {s : StdStream} (hb : r.Blocked s) : ¬ CanFinish p k final w i := by
  rintro ⟨as, hown, w', ev, hx, hfinal⟩
  have hok := ok_of_run hk h
  have hsame := blocked_exec hown hok hr hb hx
  have hrunning := running_of_awaits hp hk (manager_of_run h) (hok i r hr).2
  rw [hsame] at hfinal
  rw [hk.rests _ hfinal] at hrunning
  exact absurd hrunning Bool.false_ne_true

/-! ## Coming to the end -/

theorem canFinish_of_exec {i : ℕ} {as : List (WatchAct Q E)} (hown : ∀ a ∈ as, OwnStep i a)
    (hx : (watched p k).exec w as = some (w', ev)) (h : CanFinish p k final w' i) :
    CanFinish p k final w i := by
  obtain ⟨bs, hown', w'', ev', hx', hfinal⟩ := h
  refine ⟨as ++ bs, fun a ha => ?_, w'', ev' ++ ev, exec_append hx hx', hfinal⟩
  exact (List.mem_append.mp ha).elim (hown a) (hown' a)

theorem canFinish_of_step {i : ℕ} {a : WatchAct Q E}
    (hs : watchStep p k w a = some (w', ev)) (hown : OwnStep i a) (h : CanFinish p k final w' i) :
    CanFinish p k final w i := by
  have hx : (watched p k).exec w [a] = some (w', [] ++ ev) := by
    simp only [EventSystem.exec, watched, hs]
  exact canFinish_of_exec (fun b hb => List.mem_singleton.mp hb ▸ hown) hx h

/-- The steps of a command are steps of the whole. -/
theorem exec_task {i : ℕ} {as : List TaskAct} {r r' : CommandRun} (hr : w.runs i = some r)
    (hx : taskSteps k.cap r as = some r') :
    ∃ w', (watched p k).exec w (as.map (WatchAct.task i)) = some (w', []) ∧
      w'.manager = w.manager ∧ w'.runs i = some r' := by
  induction as generalizing w r with
  | nil =>
    obtain rfl := Option.some.inj hx
    exact ⟨w, rfl, rfl, hr⟩
  | cons a as ih =>
    obtain ⟨r₁, hstep, hrest⟩ := Option.bind_eq_some_iff.mp hx
    have hr₁ : (w.setRun i (some r₁)).runs i = some r₁ := Function.update_self i _ _
    obtain ⟨w', hx', hm, hr'⟩ := ih hr₁ hrest
    refine ⟨w', ?_, hm, hr'⟩
    have hs : (watched p k).step w (.task i a) = some (w.setRun i (some r₁), []) := by
      show watchStep p k w (.task i a) = _
      simp only [watchStep, hr, hstep, Option.map_some]
    simp only [List.map_cons, EventSystem.exec, hs, hx', List.append_nil]

/-- A command that is due and whose pipes are not held gives its answer. -/
theorem canFinish_of_run {i : ℕ} {r : CommandRun} (hr : w.runs i = some r) (hok : r.Ok)
    (hdue : r.due) (h : r.Unheld)
    (hnext : ∀ exit lines, ∃ m ev, p.step w.manager (.go i (k.answer exit lines)) = some (m, ev) ∧
      ∀ w' : WatchedJob J P R, w'.manager = m → w'.runs i = none → CanFinish p k final w' i) :
    CanFinish p k final w i := by
  obtain ⟨as, r', exit, hrun, hret⟩ := CommandRun.returns k.cap hok hdue h
  obtain ⟨w₁, hx, hm, hr'⟩ := exec_task (p := p) hr hrun
  refine canFinish_of_exec (fun a ha => ?_) hx ?_
  · obtain ⟨b, -, rfl⟩ := List.mem_map.mp ha
    exact rfl
  · obtain ⟨m, ev, hstep, hcan⟩ := hnext exit r'.sink
    rw [← hm] at hstep
    have hs : watchStep p k w₁ (.answer i)
        = some (⟨m, Function.update w₁.runs i none⟩, ev) := by
      simp only [watchStep, hr', hret, WatchedJob.goOn, hstep, Option.map_some]
    refine canFinish_of_step hs rfl (hcan _ rfl ?_)
    exact Function.update_self i _ _

/-- **A program that comes to its end does so with its commands**: each is spawned, the watchdog
fires, and nobody else holds a pipe yet. -/
theorem canFinish_of_finishes {i : ℕ} {m : JobManager J P R} (h : Finishes p k final i m) :
    ∀ w : WatchedJob J P R, w.manager = m → w.runs i = none → CanFinish p k final w i := by
  induction h with
  | done h =>
    rintro w rfl -
    exact ⟨[], fun a ha => absurd ha List.not_mem_nil, w, [], rfl, h⟩
  | @go m m' e ev hfree hs _ ih =>
    rintro w rfl hnone
    have hstep : watchStep p k w (.manager (.go i e)) = some ({ w with manager := m' }, ev) := by
      simp only [watchStep, Commands.awaitedBy, hfree, hs, Bool.false_eq_true, if_false,
        Option.map_some]
    exact canFinish_of_step hstep rfl (ih _ rfl hnone)
  | @command m hawaits next hs _ ih =>
    rintro w rfl hnone
    have hspawn : watchStep p k w (.spawn i) = some (w.setRun i (some .spawned), []) := by
      simp only [watchStep, hawaits, hnone, Option.isNone_none, Bool.and_self, if_true]
    let fired : CommandRun := { CommandRun.spawned with pc := .killing }
    have hrun : (w.setRun i (some .spawned)).runs i = some .spawned := Function.update_self i _ _
    have hfire : watchStep p k (w.setRun i (some .spawned)) (.task i .fire)
        = some ((w.setRun i (some .spawned)).setRun i (some fired), []) := by
      simp only [watchStep, hrun]
      rfl
    refine canFinish_of_step hspawn rfl (canFinish_of_step hfire rfl ?_)
    have hok : fired.Ok :=
      ⟨fun _ hk => absurd rfl hk, fun s hp => absurd hp (by simp [CommandRun.past, fired])⟩
    refine canFinish_of_run (r := fired) (Function.update_self i _ _) hok
      (.inl (by simp [fired])) (fun s => .inr fun ends hends => absurd hends List.not_mem_nil) ?_
    intro exit lines
    exact ⟨_, _, hs exit lines, ih exit lines⟩

/-- **The watchdog ends a job of a sound program just if no other process holds a pipe.** -/
theorem endsUnlessHeld (hp : p.Sound) (hk : k.Sound p final) : EndsUnlessHeld p k final := by
  intro tr w i r h hr hdue
  constructor
  · intro hcan
    by_contra hheld
    obtain ⟨s, hb⟩ := CommandRun.not_unheld_iff.mp hheld
    exact not_canFinish_of_blocked hp hk h hr hb hcan
  · intro hfree
    obtain ⟨hok, hi⟩ := ok_of_run hk h i r hr
    refine canFinish_of_run hr hok hdue hfree fun exit lines => ?_
    cases hk.finishes tr w.manager i (manager_of_run h) hi with
    | done hfinal =>
      have hrunning := running_of_awaits hp hk (manager_of_run h) hi
      rw [hk.rests _ hfinal] at hrunning
      exact absurd hrunning Bool.false_ne_true
    | go hfree' => exact absurd (hi.symm.trans hfree') (by simp)
    | command _ next hs hnext =>
      exact ⟨_, _, hs exit lines, canFinish_of_finishes (hnext exit lines)⟩

end WatchedJob

/-! ## Both programs -/

section Programs

variable {p : JobProgram J P R Q E} {m m' : JobManager J P R} {tr ev : List Event}

theorem JobProgram.step_go {i : ℕ} {c : Start P} (hc : m.starts[i]? = some c) (e : E) :
    p.step m (.go i e) = p.go m i c e := by
  rw [JobProgram.step, hc]

theorem JobManager.starts_setPc {i : ℕ} {c : Start P} (hc : m.starts[i]? = some c) (pc : P) :
    (m.setPc i pc).starts[i]? = some { c with pc := pc } := (updates_modify hc).self

theorem Commands.awaitsAt_of {k : Commands P E} {i : ℕ} {c : Start P}
    (hc : m.starts[i]? = some c) : k.awaitsAt m i = k.awaits c.pc := by
  rw [Commands.awaitsAt, hc, Option.any_some]

/-- Only one entry works under a claim. -/
theorem JobProgram.Sound.unique (hp : p.Sound) (h : p.system.Run Anything tr m) {i j : ℕ}
    {c d : Start P} (hc : m.starts[i]? = some c) (hd : m.starts[j]? = some d)
    (hci : p.holds c.pc = true) (hdj : p.holds d.pc = true) : i = j := by
  refine hp.managed.oneClaimant.unique tr m h i j c.claim d.claim ?_ ?_
  · rw [Slot.Holds, JobProgram.view_holds hc, JobProgram.hold_of_holds hci]
  · rw [Slot.Holds, JobProgram.view_holds hd, JobProgram.hold_of_holds hdj]

/-- While the mutex of the job is kept over an await, whoever works under a claim is at a point
where the mutex is kept. -/
def LockKept (p : JobProgram J P R Q E) (keeps : P → Bool) (m : JobManager J P R) : Prop :=
  m.lockedBy.isSome = true → ∀ (i : ℕ) (c : Start P), m.starts[i]? = some c →
    p.holds c.pc = true → keeps c.pc = true

/-- What a step of a program does to the mutex: it frees it, or takes it from an entry that works
under the claim and then keeps it, or leaves it and makes nobody work under a claim elsewhere. -/
structure LockStep (p : JobProgram J P R Q E) (keeps : P → Bool) (m : JobManager J P R) (i : ℕ)
    (c : Start P) (m' : JobManager J P R) : Prop where
  apart : ∀ j, j ≠ i → m'.starts[j]? = m.starts[j]?
  lock : m'.lockedBy = none ∨ (m.lockedBy = none ∧ p.holds c.pc = true ∧
      ∀ d, m'.starts[i]? = some d → p.holds d.pc = true → keeps d.pc = true) ∨
    (m'.lockedBy = m.lockedBy ∧ ∀ d, m'.starts[i]? = some d → m.lockedBy.isSome = true →
      p.holds d.pc = true → (p.holds c.pc = true ∧ (keeps c.pc = true → keeps d.pc = true)))

theorem lockKept_of_run {keeps : P → Bool} (hp : p.Sound)
    (hinit : ∀ m, p.init m → m.lockedBy = none)
    (hstep : ∀ m i c e m' ev, m.starts[i]? = some c → p.go m i c e = some (m', ev) →
      LockStep p keeps m i c m')
    (h : p.system.Run Anything tr m) : LockKept p keeps m := by
  refine h.invariant (I := fun _ m => LockKept p keeps m) ?_ ?_
  · intro m hm hlock
    rw [hinit m hm] at hlock
    exact absurd hlock Bool.false_ne_true
  · intro tr m a m' ev hrun _ hs hkept hlock j d hd hholds
    replace hs : p.step m a = some (m', ev) := hs
    cases a with
    | call req =>
      obtain ⟨rfl, -⟩ := Prod.mk.inj (Option.some.inj hs)
      rcases getElem?_concat_cases hd with hd | ⟨-, rfl⟩
      · exact hkept hlock j d hd hholds
      · rw [hp.enter] at hholds
        exact absurd hholds Bool.false_ne_true
    | go i e =>
      simp only [JobProgram.step] at hs
      split at hs
      · next c hc =>
        obtain ⟨hapart, hfree | ⟨-, hholds', hkeeps⟩ | ⟨hsame, hkeeps⟩⟩ :=
          hstep m i c e m' ev hc hs
        · rw [hfree] at hlock
          exact absurd hlock Bool.false_ne_true
        · -- the entry that takes the mutex is the only one under a claim
          by_cases hji : j = i
          · subst hji
            exact hkeeps d hd hholds
          · rw [hapart j hji] at hd
            exact absurd (hp.unique hrun hd hc hholds hholds') hji
        · rw [hsame] at hlock
          by_cases hji : j = i
          · subst hji
            obtain ⟨hc', hkeep⟩ := hkeeps d hd hlock hholds
            exact hkeep (hkept hlock j c hc hc')
          · rw [hapart j hji] at hd
            exact hkept hlock j d hd hholds
      · exact absurd hs (by simp)
    | drop i =>
      simp only [JobProgram.step] at hs
      split at hs
      · next c hc =>
        split at hs
        · obtain ⟨rfl, -⟩ := Prod.mk.inj (Option.some.inj hs)
          rcases (updates_modify hc).cases hd with ⟨-, rfl⟩ | ⟨-, hd⟩
          · replace hholds : p.holds p.dropped = true := hholds
            rw [hp.dropped] at hholds
            exact absurd hholds Bool.false_ne_true
          · exact hkept hlock j d hd hholds
        · exact absurd hs (by simp)
      · exact absurd hs (by simp)

section LockStep

variable {keeps : P → Bool} {m₀ : JobManager J P R} {i : ℕ} {c : Start P} {pc : P}

theorem lockStep_free (hstarts : m₀.starts = m.starts) (hfree : m₀.lockedBy = none) :
    LockStep p keeps m i c (m₀.setPc i pc) where
  apart := by
    intro j hj
    rw [JobManager.setPc, hstarts]
    simp [Ne.symm hj]
  lock := .inl hfree

theorem lockStep_claim (job : J) (hnone : m.lockedBy = none) :
    LockStep p keeps m i c (m.claimJob i job pc) where
  apart := by
    intro j hj
    simp [JobManager.claimJob, Ne.symm hj]
  lock := .inl hnone

theorem lockStep_take (hc : m.starts[i]? = some c) (hstarts : m₀.starts = m.starts)
    (hnone : m.lockedBy = none) (hholds : p.holds c.pc = true)
    (hkeeps : p.holds pc = true → keeps pc = true) : LockStep p keeps m i c (m₀.setPc i pc) where
  apart := by
    intro j hj
    rw [JobManager.setPc, hstarts]
    simp [Ne.symm hj]
  lock := by
    refine .inr (.inl ⟨hnone, hholds, fun d hd hdh => ?_⟩)
    rw [JobManager.starts_setPc (hstarts ▸ hc)] at hd
    obtain rfl := Option.some.inj hd
    exact hkeeps hdh

theorem lockStep_on (hc : m.starts[i]? = some c)
    (h : p.holds pc = true → p.holds c.pc = true ∧ (keeps c.pc = true → keeps pc = true)) :
    LockStep p keeps m i c (m.setPc i pc) where
  apart := (updates_modify hc).other
  lock := by
    refine .inr (.inr ⟨rfl, fun d hd _ hdh => ?_⟩)
    rw [JobManager.starts_setPc hc] at hd
    obtain rfl := Option.some.inj hd
    exact h hdh

end LockStep

/-- A section has run, so nobody keeps the mutex. -/
theorem free_of_section {α : Type*} {holder : Option ℕ} {r : Option α} {x : α}
    (h : (if holder.isSome then none else r) = some x) : holder = none ∧ r = some x := by
  cases holder with
  | none => exact ⟨rfl, h⟩
  | some j => exact absurd h (by simp)

end Programs

section Rebuild

variable {m m' : RebuildManager} {i : ℕ} {c : Start RebuildPc} {ev : List Event}

theorem rebuildGo_lock {e : RebuildEnv} (hc : m.starts[i]? = some c)
    (h : rebuildGo m i c e = some (m', ev)) :
    LockStep rebuildProgram (fun _ => false) m i c m' := by
  obtain ⟨pc, claim⟩ := c
  cases e with
  | next now =>
    simp only [rebuildGo] at h
    split at h
    · obtain ⟨hfree, h⟩ := free_of_section h
      split at h
      · obtain ⟨rfl, -⟩ := Prod.mk.inj (Option.some.inj h)
        exact lockStep_free rfl hfree
      · obtain ⟨rfl, -⟩ := Prod.mk.inj (Option.some.inj h)
        exact lockStep_claim _ hfree
    · obtain ⟨hfree, h⟩ := free_of_section h
      obtain ⟨rfl, -⟩ := Prod.mk.inj (Option.some.inj h)
      exact lockStep_free rfl hfree
    · obtain ⟨rfl, -⟩ := Prod.mk.inj (Option.some.inj h)
      exact lockStep_on hc fun _ => ⟨rfl, id⟩
    · obtain ⟨hfree, h⟩ := free_of_section h
      obtain ⟨rfl, -⟩ := Prod.mk.inj (Option.some.inj h)
      exact lockStep_take hc rfl hfree rfl fun hh => hh
    · obtain ⟨rfl, -⟩ := Prod.mk.inj (Option.some.inj h)
      exact lockStep_free rfl rfl
    · exact absurd h (by simp)
  | sha sha =>
    simp only [rebuildGo] at h
    split at h
    · obtain ⟨rfl, -⟩ := Prod.mk.inj (Option.some.inj h)
      exact lockStep_on hc fun _ => ⟨rfl, id⟩
    · obtain ⟨rfl, -⟩ := Prod.mk.inj (Option.some.inj h)
      exact lockStep_on hc fun _ => ⟨rfl, id⟩
    · exact absurd h (by simp)
  | ran ok lines =>
    simp only [rebuildGo] at h
    split at h
    · obtain ⟨rfl, -⟩ := Prod.mk.inj (Option.some.inj h)
      exact lockStep_on hc fun _ => ⟨rfl, id⟩
    · obtain ⟨rfl, -⟩ := Prod.mk.inj (Option.some.inj h)
      exact lockStep_on hc fun _ => ⟨rfl, id⟩
    · exact absurd h (by simp)

/-- The status of a rebuild that has come to its end. -/
def RebuildJob.over (j : RebuildJob) : Prop := j.status = .ok ∨ j.status = .failed

theorem RebuildJob.over_finish (j : RebuildJob) (now : ℚ) (afterSha : Option String)
    (pullOk buildOk : Bool) (lines : List String) :
    (j.finish now afterSha pullOk buildOk lines).over := by
  unfold finish
  split
  · exact .inl rfl
  · exact .inr rfl

/-- The end is written. -/
theorem rebuild_finishes_finish {beforeSha : Option String} {pullOk buildOk : Bool}
    {log : List String} {afterSha : Option String} {claim : ℕ}
    (hc : m.starts[i]? = some ⟨.finish beforeSha pullOk buildOk log afterSha, claim⟩)
    (hlock : m.lockedBy = none) :
    Finishes rebuildProgram rebuildCommands RebuildJob.over i m := by
  have hend : rebuildProgram.step m (.go i (.next 0)) =
      some (((m.lock i).setJob (m.job.finish 0 afterSha pullOk buildOk log)).setPc i
        (.history beforeSha afterSha (pullOk && buildOk)), [.finished i claim m.gen]) := by
    rw [JobProgram.step_go hc]
    simp only [rebuildProgram, rebuildGo, hlock, Option.isSome_none, Bool.false_eq_true, if_false]
  exact .go (Commands.awaitsAt_of hc) hend (.done (RebuildJob.over_finish _ _ _ _ _ _))

/-- After the second command git is asked, which answers. -/
theorem rebuild_finishes_afterSha {beforeSha : Option String} {pullOk buildOk : Bool}
    {log : List String} {claim : ℕ}
    (hc : m.starts[i]? = some ⟨.afterSha beforeSha pullOk buildOk log, claim⟩)
    (hlock : m.lockedBy = none) :
    Finishes rebuildProgram rebuildCommands RebuildJob.over i m := by
  have hask : rebuildProgram.step m (.go i (.sha none)) =
      some (m.setPc i (.finish beforeSha pullOk buildOk log none), []) := JobProgram.step_go hc _
  exact .go (Commands.awaitsAt_of hc) hask
    (rebuild_finishes_finish (JobManager.starts_setPc hc _) hlock)

/-- From the second command on. -/
theorem rebuild_finishes_build {beforeSha : Option String} {pullOk : Bool} {log : List String}
    {claim : ℕ} (hc : m.starts[i]? = some ⟨.build beforeSha pullOk log, claim⟩)
    (hlock : m.lockedBy = none) :
    Finishes rebuildProgram rebuildCommands RebuildJob.over i m := by
  refine .command (Commands.awaitsAt_of hc)
    (fun exit lines => (m.setPc i (.afterSha beforeSha pullOk (exit.any ExitStatus.success)
      (log ++ lines)), [])) (fun exit lines => JobProgram.step_go hc _) fun exit lines => ?_
  exact rebuild_finishes_afterSha (JobManager.starts_setPc hc _) hlock

/-- From the first command on. -/
theorem rebuild_finishes_pull {beforeSha : Option String} {claim : ℕ}
    (hc : m.starts[i]? = some ⟨.pull beforeSha, claim⟩) (hlock : m.lockedBy = none) :
    Finishes rebuildProgram rebuildCommands RebuildJob.over i m := by
  refine .command (Commands.awaitsAt_of hc)
    (fun exit lines => (m.setPc i (.build beforeSha (exit.any ExitStatus.success) lines), []))
    (fun exit lines => JobProgram.step_go hc _) fun exit lines => ?_
  exact rebuild_finishes_build (JobManager.starts_setPc hc _) hlock

theorem rebuildCommands_awaits {pc : RebuildPc} (h : rebuildCommands.awaits pc = true) :
    (∃ sha, pc = .pull sha) ∨ ∃ sha ok log, pc = .build sha ok log := by
  cases pc with
  | pull sha => exact .inl ⟨sha, rfl⟩
  | build sha ok log => exact .inr ⟨sha, ok, log, rfl⟩
  | _ => exact absurd h Bool.false_ne_true

/-- **The commands of a rebuild are sound.** -/
theorem rebuildCommands_sound : rebuildCommands.Sound rebuildProgram RebuildJob.over where
  holds := by
    intro pc h
    rcases rebuildCommands_awaits h with ⟨sha, rfl⟩ | ⟨sha, ok, log, rfl⟩ <;> rfl
  stays := by
    intro pc h
    rcases rebuildCommands_awaits h with ⟨sha, rfl⟩ | ⟨sha, ok, log, rfl⟩ <;> rfl
  apart := fun m i c e m' ev hc h => (rebuildGo_lock hc h).apart
  rests := by
    rintro job (h | h) <;> exact decide_eq_false (by rw [h]; decide)
  finishes := by
    intro tr m i hrun hi
    obtain ⟨⟨pc, claim⟩, hc, hawaits⟩ := (Option.any_eq_true _ _).mp hi
    have hkept : LockKept rebuildProgram (fun _ => false) m :=
      lockKept_of_run rebuildProgram_sound (fun m hm => hm.2.1)
        (fun m i c e m' ev hc h => rebuildGo_lock hc h) hrun
    have hlock : m.lockedBy = none := by
      cases hlocked : m.lockedBy with
      | none => rfl
      | some j =>
        have hholds : rebuildProgram.holds pc = true := by
          rcases rebuildCommands_awaits hawaits with ⟨sha, rfl⟩ | ⟨sha, ok, log, rfl⟩ <;> rfl
        exact absurd (hkept (by rw [hlocked]; rfl) i _ hc hholds) Bool.false_ne_true
    rcases rebuildCommands_awaits hawaits with ⟨sha, rfl⟩ | ⟨sha, ok, log, rfl⟩
    · exact rebuild_finishes_pull hc hlock
    · exact rebuild_finishes_build hc hlock

end Rebuild

section Download

variable {hf : Hf} {unicode : Char → Bool} {m m' : DownloadManager} {i : ℕ}
  {c : Start DownloadPc} {ev : List Event}

/-- Where the task of a download keeps the mutex of the job. -/
def DownloadPc.keepsLock : DownloadPc → Bool
  | .resolve _ | .register _ _ => true
  | _ => false

theorem downloadGo_lock {e : DownloadEnv} (hc : m.starts[i]? = some c)
    (h : downloadGo hf unicode m i c e = some (m', ev)) :
    LockStep (downloadProgram hf unicode) DownloadPc.keepsLock m i c m' := by
  obtain ⟨pc, claim⟩ := c
  cases e with
  | next now =>
    simp only [downloadGo] at h
    split at h
    · split at h
      · obtain ⟨rfl, -⟩ := Prod.mk.inj (Option.some.inj h)
        exact lockStep_on hc fun hh => absurd hh Bool.false_ne_true
      · obtain ⟨rfl, -⟩ := Prod.mk.inj (Option.some.inj h)
        exact lockStep_on hc fun hh => absurd hh Bool.false_ne_true
    · obtain ⟨hfree, h⟩ := free_of_section h
      split at h
      · obtain ⟨rfl, -⟩ := Prod.mk.inj (Option.some.inj h)
        exact lockStep_free rfl hfree
      · obtain ⟨rfl, -⟩ := Prod.mk.inj (Option.some.inj h)
        exact lockStep_claim _ hfree
    · obtain ⟨hfree, h⟩ := free_of_section h
      obtain ⟨rfl, -⟩ := Prod.mk.inj (Option.some.inj h)
      exact lockStep_free rfl hfree
    · obtain ⟨hfree, h⟩ := free_of_section h
      split at h
      · obtain ⟨rfl, -⟩ := Prod.mk.inj (Option.some.inj h)
        exact lockStep_take hc rfl hfree rfl fun _ => rfl
      · obtain ⟨rfl, -⟩ := Prod.mk.inj (Option.some.inj h)
        exact lockStep_free rfl hfree
    · exact absurd h (by simp)
  | spawned =>
    simp only [downloadGo] at h
    split at h
    · obtain ⟨rfl, -⟩ := Prod.mk.inj (Option.some.inj h)
      exact lockStep_on hc fun _ => ⟨rfl, id⟩
    · exact absurd h (by simp)
  | spawnError e =>
    simp only [downloadGo] at h
    split at h
    · obtain ⟨rfl, -⟩ := Prod.mk.inj (Option.some.inj h)
      exact lockStep_on hc fun _ => ⟨rfl, id⟩
    · exact absurd h (by simp)
  | exited exit lines =>
    simp only [downloadGo] at h
    split at h
    · obtain ⟨rfl, -⟩ := Prod.mk.inj (Option.some.inj h)
      exact lockStep_on hc fun _ => ⟨rfl, id⟩
    · exact absurd h (by simp)
  | resolved path =>
    simp only [downloadGo] at h
    split at h
    · split at h
      · obtain ⟨rfl, -⟩ := Prod.mk.inj (Option.some.inj h)
        exact lockStep_on hc fun _ => ⟨rfl, fun _ => rfl⟩
      · obtain ⟨rfl, -⟩ := Prod.mk.inj (Option.some.inj h)
        exact lockStep_free rfl rfl
    · exact absurd h (by simp)
  | persisted written =>
    simp only [downloadGo] at h
    split at h
    · obtain ⟨rfl, -⟩ := Prod.mk.inj (Option.some.inj h)
      exact lockStep_free rfl rfl
    · exact absurd h (by simp)

/-- The status of a download that has come to its end. -/
def DownloadJob.over (j : DownloadJob) : Prop := j.status = .ok ∨ j.status = .failed

/-- After the command: the end is written, after a look at the cache if the command succeeded. -/
theorem download_finishes_finish {repo : String} {exit : Option ExitStatus} {log : List String}
    {claim : ℕ} (hc : m.starts[i]? = some ⟨.finish repo exit log, claim⟩)
    (hlock : m.lockedBy = none) :
    Finishes (downloadProgram hf unicode) downloadCommands DownloadJob.over i m := by
  by_cases hexit : exit.any ExitStatus.success = true
  · let m₁ := ((m.lock i).setJob (m.job.collected 0 log)).setPc i (.resolve repo)
    have hc₁ : m₁.starts[i]? = some ⟨.resolve repo, claim⟩ := JobManager.starts_setPc hc _
    have hend : (downloadProgram hf unicode).step m (.go i (.next 0))
        = some (m₁, [.wrote i claim m.gen]) := by
      rw [JobProgram.step_go hc]
      simp only [downloadProgram, downloadGo, hlock, hexit, Option.isSome_none,
        Bool.false_eq_true, if_false, if_true]
      rfl
    have hmiss : (downloadProgram hf unicode).step m₁ (.go i (.resolved none)) =
        some ((m₁.unlock.setJob (m₁.job.fail "resolved GGUF not found in HF cache")).setPc i .ended,
          [.finished i claim m₁.gen]) := JobProgram.step_go hc₁ _
    exact .go (Commands.awaitsAt_of hc) hend
      (.go (Commands.awaitsAt_of hc₁) hmiss (.done (.inr rfl)))
  · have hend : (downloadProgram hf unicode).step m (.go i (.next 0)) =
        some ((m.setJob ((m.job.collected 0 log).fail ("hf download exit " ++ exitDebug exit))
          ).setPc i .ended, [.finished i claim m.gen]) := by
      rw [JobProgram.step_go hc]
      simp only [downloadProgram, downloadGo, hlock, hexit, Option.isSome_none,
        Bool.false_eq_true, if_false]
    exact .go (Commands.awaitsAt_of hc) hend (.done (.inr rfl))

theorem downloadCommands_awaits {pc : DownloadPc} (h : downloadCommands.awaits pc = true) :
    ∃ repo, pc = .child repo := by
  cases pc with
  | child repo => exact ⟨repo, rfl⟩
  | _ => exact absurd h Bool.false_ne_true

/-- **The command of a download is sound.** -/
theorem downloadCommands_sound (hf : Hf) (unicode : Char → Bool) :
    downloadCommands.Sound (downloadProgram hf unicode) DownloadJob.over where
  holds := by
    intro pc h
    obtain ⟨repo, rfl⟩ := downloadCommands_awaits h
    rfl
  stays := by
    intro pc h
    obtain ⟨repo, rfl⟩ := downloadCommands_awaits h
    rfl
  apart := fun m i c e m' ev hc h => (downloadGo_lock hc h).apart
  rests := by
    rintro job (h | h) <;> exact decide_eq_false (by rw [h]; decide)
  finishes := by
    intro tr m i hrun hi
    obtain ⟨⟨pc, claim⟩, hc, hawaits⟩ := (Option.any_eq_true _ _).mp hi
    obtain ⟨repo, rfl⟩ := downloadCommands_awaits hawaits
    have hkept : LockKept (downloadProgram hf unicode) DownloadPc.keepsLock m :=
      lockKept_of_run (downloadProgram_sound hf unicode) (fun m hm => hm.2.1)
        (fun m i c e m' ev hc h => downloadGo_lock hc h) hrun
    have hlock : m.lockedBy = none := by
      cases hlocked : m.lockedBy with
      | none => rfl
      | some j => exact absurd (hkept (by rw [hlocked]; rfl) i _ hc rfl) Bool.false_ne_true
    refine .command hi (fun exit lines => (m.setPc i (.finish repo exit lines), []))
      (fun exit lines => JobProgram.step_go hc _) fun exit lines => ?_
    exact download_finishes_finish (JobManager.starts_setPc hc _) hlock

end Download

/-! ## Results -/

/-- **The watchdog ends a job**, of a download as of a rebuild, just if no process other than the
direct child holds a pipe that is still read. -/
theorem watchdog_ends_job_iff (hf : Hf) (unicode : Char → Bool) :
    EndsUnlessHeld (downloadProgram hf unicode) downloadCommands DownloadJob.over ∧
      EndsUnlessHeld rebuildProgram rebuildCommands RebuildJob.over :=
  ⟨WatchedJob.endsUnlessHeld (downloadProgram_sound hf unicode) (downloadCommands_sound hf unicode),
    WatchedJob.endsUnlessHeld rebuildProgram_sound rebuildCommands_sound⟩

/-- The watched downloads of a plain configuration. -/
def plainDownloads :
    EventSystem (WatchedJob DownloadJob DownloadPc Registry) (WatchAct HfDownloadReq DownloadEnv)
      Event :=
  watched (downloadProgram plainHf asciiOnly) downloadCommands

/-- A download is started. -/
def startDownload : List (WatchAct HfDownloadReq DownloadEnv) :=
  [.manager (.call ⟨"org/model", none⟩), .manager (.go 0 (.next 1)), .manager (.go 0 (.next 1)),
    .manager (.go 0 .spawned), .spawn 0]

theorem plainDownloads_init : plainDownloads.init ⟨newDownloads, fun _ => none⟩ :=
  ⟨⟨rfl, rfl, rfl, rfl⟩, rfl⟩

/-- A command that hangs, with nobody else on its pipes: the watchdog ends the job. -/
theorem watchdog_ends_job_iff_hung :
    ∃ tr w r, plainDownloads.Run Anything tr w ∧ w.runs 0 = some r ∧ r.pc = .killing ∧
      CanFinish (downloadProgram plainHf asciiOnly) downloadCommands DownloadJob.over w 0 := by
  obtain ⟨tr, w, h, hp⟩ := Run.reaches plainDownloads Anything (startDownload ++ [.task 0 .fire])
    (fun _ w => (w.runs 0).any fun r : CommandRun => decide (r.pc = .killing ∧ r.others.length = 0))
    plainDownloads_init (admits_anything _ _ _) (by decide)
  obtain ⟨r, hr, hp⟩ := (Option.any_eq_true _ _).mp hp
  obtain ⟨hpc, hnone⟩ := of_decide_eq_true hp
  refine ⟨tr, w, r, h, hr, hpc, ?_⟩
  have hdue : r.due := .inl (by simp [hpc])
  refine ((watchdog_ends_job_iff plainHf asciiOnly).1 tr w 0 r h hr hdue).mpr fun s => .inr ?_
  rw [List.length_eq_zero_iff.mp hnone]
  exact fun ends hends => absurd hends List.not_mem_nil

/-- **A process that outlives the command keeps the job running**: `uvx` ends while the process
that it has started still holds its pipes. -/
theorem survivor_keeps_job_running :
    ¬ ∀ tr w i r, plainDownloads.Run Anything tr w → w.runs i = some r → r.due →
      CanFinish (downloadProgram plainHf asciiOnly) downloadCommands DownloadJob.over w i := by
  intro hall
  obtain ⟨tr, w, h, hp⟩ := Run.reaches plainDownloads Anything
    (startDownload ++ [.proc 0 .fork, .proc 0 (.exit (some ⟨some 0⟩)), .task 0 .poll])
    (fun _ w => (w.runs 0).any fun r : CommandRun => decide (r.pc = .joinOut (some ⟨some 0⟩) ∧
      (r.pipe .out).collecting = true ∧ (r.pipe .out).buffer = [] ∧
      (r.others.any fun ends => ends .out) = true))
    plainDownloads_init (admits_anything _ _ _) (by decide)
  obtain ⟨r, hr, hp⟩ := (Option.any_eq_true _ _).mp hp
  obtain ⟨hpc, hcol, hbuf, hheld⟩ := of_decide_eq_true hp
  have hdue : r.due := .inl (by simp [hpc])
  have hblocked : r.Blocked .out := by
    refine ⟨hcol, ?_, List.any_eq_true.mp hheld⟩
    rw [hbuf]
    exact List.not_mem_nil
  exact WatchedJob.not_canFinish_of_blocked (downloadProgram_sound _ _)
    (downloadCommands_sound _ _) h hr hblocked (hall tr w 0 r h hr hdue)

end LlmCtl
