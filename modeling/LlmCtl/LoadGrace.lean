/-
# The grace of a load (`supervisor.rs`)

A worker that loads its model may take a minute before a failed health check counts.  `poll` knows
a load by the status `Starting` in its snapshot, and by `started_at`.  It takes both before it
writes its result, and sends its probe before that, so a result or a snapshot may belong to the
worker before.

The observer here sees when a start is announced, which child answers a probe, and when `poll` takes
its snapshot.

* `Step.continues`: only an announcement begins a load.
* `load_keeps_grace`: a load is not marked `Crashed`, and not restarted, in every run in which
  `poll` writes no success while it goes on, and no failure on a snapshot from before it.
-/
import LlmCtl.ReadyTruth

namespace LlmCtl

open EventSystem WorkerState

/-! ## What is observed -/

inductive LoadEvent where
  /-- `spawn` announces a start. -/
  | began
  /-- A child answers a health probe with success. -/
  | answered (child : ℕ)
  /-- `poll` takes its snapshot. -/
  | snapshot
  deriving DecidableEq, Repr

/-- Does `spawn` announce the start next? -/
def Crit.begins : Crit → Bool
  | .spawn _ _ .begin => true
  | _ => false

/-- Does `poll` take its snapshot next? -/
def Poller.takesSnapshot : Poller → Bool
  | .snapshot _ => true
  | _ => false

def loadEvents (s : Sup) : Act → List LoadEvent
  | .run => if s.holder.any Crit.begins then [.began] else []
  | .probeAnswer (some child) => [.answered child]
  | .poll => if s.poller.takesSnapshot then [.snapshot] else []
  | _ => []

/-- The supervisor under this observer. -/
def loading (cfg : Config) : EventSystem Sup Act LoadEvent := (supervisor cfg).observe loadEvents

/-! ## The property and the condition -/

/-- The child that `spawn` has just created. -/
def Crit.created : Crit → Option ℕ
  | .spawn _ _ (.record child _) => some child
  | _ => none

/-- The current worker: the child just created, or the recorded one. -/
def Sup.current (s : Sup) : Option ℕ := (s.holder.bind Crit.created).or s.worker

/-- Is a worker about to be created? -/
def Sup.isCreating (s : Sup) : Bool := (s.holder.bind Crit.creating).isSome

/-- A minute has not passed since the last start was announced. -/
def Sup.InGrace (s : Sup) : Prop := ∃ t ∈ s.st.startedAt, s.clock ≤ t + 60000

/-- **A load**: a worker is being created, or is current and has never answered a probe, and it is
not a minute old. -/
def Loading (tr : List LoadEvent) (s : Sup) : Prop :=
  (s.isCreating = true ∨ ∃ child ∈ s.current, .answered child ∉ tr) ∧ s.InGrace

/-- A live worker that loads. -/
structure LoadingWorker (tr : List LoadEvent) (s : Sup) (child : ℕ) : Prop where
  current : s.current = some child
  live : ∃ c, s.procs[child]? = some c ∧ c.live = true
  unanswered : .answered child ∉ tr
  inGrace : s.InGrace

/-- Is `maybe_restart` past its checks, and not yet at `spawn`? -/
def Crit.isRestarting : Crit → Bool
  | .count _ | .stopInner (.maybeRestart _) _ => true
  | _ => false

/-- **A load is given its grace.** -/
structure LoadGrace (tr : List LoadEvent) (s : Sup) : Prop where
  notCrashed : ∀ child, LoadingWorker tr s child → s.st.status.isCrashed = false
  notRestarted : ∀ child, LoadingWorker tr s child → s.holder.any Crit.isRestarting = false

/-- Was the last snapshot taken since the last announcement? -/
def snapshotIsFresh : List LoadEvent → Bool
  | [] => false
  | .snapshot :: _ => true
  | .began :: _ => false
  | .answered _ :: tr => snapshotIsFresh tr

/-- Is `poll` about to write a success? -/
def Poller.writesSuccess : Poller → Bool
  | .write true _ _ => true
  | _ => false

/-- While a worker loads, `poll` writes no success (the worker's own would end the load), and no
failure on a snapshot from before the worker. -/
def OwnResults (tr : List LoadEvent) (s : Sup) (a : Act) : Prop :=
  a.isPoll = true → Loading tr s →
    s.poller.writesSuccess = false ∧
      ((s.poller.verdict s.clock).isSome = true → snapshotIsFresh tr = true)

instance (s : Sup) : Decidable s.InGrace :=
  inferInstanceAs (Decidable (∃ t ∈ s.st.startedAt, _))

instance (tr : List LoadEvent) (s : Sup) : Decidable (Loading tr s) :=
  inferInstanceAs (Decidable ((_ ∨ ∃ child ∈ s.current, _) ∧ _))

instance (tr : List LoadEvent) (s : Sup) (a : Act) : Decidable (OwnResults tr s a) := by
  unfold OwnResults
  infer_instance

/-! ## Only an announcement begins a load -/

/-- The child just created is the newest one with its pid. -/
def RecordOk (s : Sup) : Prop :=
  ∀ caller m child pid, s.holder = some (.spawn caller m (.record child pid)) →
    workerOf s.procs pid = some child

/-- What a step that announces no start does to a load: nothing begins, and time passes. -/
structure Continues (s s' : Sup) : Prop where
  startedAt : s'.st.startedAt = s.st.startedAt
  clock : s.clock ≤ s'.clock
  creating : s'.isCreating = true → s.isCreating = true
  current : ∀ child, s'.current = some child → s.current = some child ∨ s.isCreating = true

theorem RecordOk.same {s s' : Sup} (h : RecordOk s) (hh : s'.holder = s.holder)
    (hw : ∀ pid, workerOf s'.procs pid = workerOf s.procs pid) : RecordOk s' := by
  intro caller m child pid hc
  rw [hw]
  exact h caller m child pid (hh ▸ hc)

theorem recordOk_of_ne {s : Sup} (h : s.holder.bind Crit.created = none) : RecordOk s := by
  intro caller m child pid hc
  simp [hc, Crit.created] at h

section Step

variable {cfg : Config} {s s' : Sup} {a : Act} {ev : List Event}

theorem Step.recordOk (hs : Step cfg s a ev s') (h : RecordOk s) : RecordOk s' := by
  cases hs with
  | exit i c hc hrun =>
    exact h.same rfl (workerOf_modify Proc.die_pid Proc.die_launchedFor s.procs i)
  | appear pid cmdline hfree => exact h.same rfl fun p => workerOf_stranger _ _ _ _
  | reap i c hc hw hz =>
    exact h.same rfl (workerOf_modify Proc.reap_pid Proc.reap_launchedFor s.procs i)
  | waitSection i c hc hw =>
    exact h.same rfl (workerOf_modify Proc.waitDone_pid Proc.waitDone_launchedFor s.procs i)
  | launched caller m pid hc hfree =>
    intro caller' m' child pid' hrecord
    obtain ⟨-, -, rfl, rfl⟩ : caller = caller' ∧ m = m' ∧ s.procs.length = child ∧ pid = pid' := by
      simpa using hrecord
    simp [workerOf, ListTable.lastIdx_concat]
  | grant w ws hh hq => exact recordOk_of_ne (by cases w <;> simp [Waiter.entry, Crit.created])
  | move c c' hc hm => exact recordOk_of_ne (by cases hm <;> simp [Crit.created])
  | finish caller hc => exact recordOk_of_ne (by cases caller <;> simp [afterStop, Crit.created])
  | count m hc =>
    rcases countStep_holder s m cfg with heq | heq
    · exact recordOk_of_ne (by simp [heq])
    · exact recordOk_of_ne (by simp [heq, Crit.created])
  | dropHolder | running | setStopping | term | kill | termFails | killFails | reset
  | spawnReturn | begin | execFailed | failed | record | recovered =>
    exact recordOk_of_ne (by simp [Crit.created])
  | _ => exact h.same rfl fun _ => rfl

/-- While a pid is recorded nothing is being created. -/
theorem Sup.PidOk.not_creating (h : s.PidOk) (hpid : s.st.pid ≠ none) :
    s.holder.bind Crit.creating = none ∧ s.holder.bind Crit.created = none := by
  cases hc : s.holder with
  | none => exact ⟨rfl, rfl⟩
  | some c =>
    cases c with
    | spawn caller m pc => exact absurd (h _ hc) hpid
    | _ => exact ⟨rfl, rfl⟩

/-- A recorded worker is current. -/
theorem Sup.current_of_worker (hp : s.PidOk) {child : ℕ} (hw : s.worker = some child) :
    s.current = some child := by
  have hpid : s.st.pid ≠ none := by
    intro hnone
    simp [Sup.worker, hnone] at hw
  rw [Sup.current, (hp.not_creating hpid).2, Option.none_or, hw]

/-- A step that creates no worker, and keeps the recorded one or drops it. -/
theorem Continues.same (hp : s.PidOk) (hstart : s'.st.startedAt = s.st.startedAt)
    (hclock : s.clock ≤ s'.clock) (hworker : s'.worker = s.worker ∨ s'.worker = none)
    (hholder : s'.holder = s.holder ∨
      s'.holder.bind Crit.creating = none ∧ s'.holder.bind Crit.created = none) :
    Continues s s' where
  startedAt := hstart
  clock := hclock
  creating := by
    unfold Sup.isCreating
    rcases hholder with heq | ⟨hnone, -⟩
    · rw [heq]
      exact id
    · simp [hnone]
  current := by
    intro child hcurrent
    rcases Option.or_eq_some_iff.mp hcurrent with hcreated | ⟨-, hw⟩
    · rcases hholder with heq | ⟨-, hnone⟩
      · rw [heq] at hcreated
        exact .inl (Option.or_eq_some_iff.mpr (.inl hcreated))
      · exact absurd (hnone.symm.trans hcreated) (by simp)
    · rcases hworker with heq | hnone
      · exact .inl (Sup.current_of_worker hp (heq ▸ hw))
      · exact absurd (hnone.symm.trans hw) (by simp)

/-- **Only an announcement begins a load.** -/
theorem Step.continues (hs : Step cfg s a ev s') (hp : s.PidOk) (hr : RecordOk s)
    (hbegin : a = .run → s.holder.any Crit.begins = false) : Continues s s' := by
  cases hs with
  | tick ms => exact .same hp rfl (Nat.le_add_right _ _) (.inl rfl) (.inl rfl)
  | exit i c hc hrun =>
    exact .same hp rfl le_rfl
      (.inl (worker_modify Proc.die i (fun _ => rfl) (fun _ => rfl) rfl rfl)) (.inl rfl)
  | appear pid cmdline hfree =>
    exact .same hp rfl le_rfl (.inl (worker_stranger s pid cmdline)) (.inl rfl)
  | reap i c hc hw hz =>
    exact .same hp rfl le_rfl
      (.inl (worker_modify Proc.reap i (fun _ => rfl) (fun _ => rfl) rfl rfl)) (.inl rfl)
  | waitSection i c hc hw =>
    refine .same hp (childExited_startedAt _ _) le_rfl ?_ (.inl rfl)
    rcases s.st.childExited_cases c.pid with ⟨-, heq⟩ | ⟨-, hnone, -⟩
    · exact .inl (worker_modify Proc.waitDone i (fun _ => rfl) (fun _ => rfl) (by rw [heq]) rfl)
    · exact .inr (by simp [Sup.worker, hnone])
  | dropHolder | running | recovered =>
    exact .same hp rfl le_rfl (.inl rfl) (.inr (by simp))
  | setStopping | term | termFails | killFails | reset | execFailed =>
    exact .same hp rfl le_rfl (.inl rfl) (.inr (by simp [Crit.creating, Crit.created]))
  | grant w ws hh hq =>
    exact .same hp rfl le_rfl (.inl rfl)
      (.inr (by cases w <;> simp [Waiter.entry, Crit.creating, Crit.created]))
  | move c c' hc hm =>
    exact .same hp rfl le_rfl (.inl rfl)
      (.inr (by cases hm <;> simp [Crit.creating, Crit.created]))
  | kill caller pid hc =>
    exact .same hp rfl le_rfl (.inl (worker_sigkill s pid _))
      (.inr (by simp [Crit.creating, Crit.created]))
  | finish caller hc =>
    have hclock : s.clock ≤ (afterStop { s with st := s.st.markStopped } caller).1.clock := by
      cases caller <;> exact le_rfl
    exact .same hp (by simp) hclock (.inr (by simp [Sup.worker]))
      (.inr (by cases caller <;> simp [afterStop, Crit.creating, Crit.created]))
  | spawnReturn caller m ok pc hc hpc =>
    exact .same hp (by simp) (by simp) (.inl (by simp [Sup.worker]))
      (.inr (by simp))
  | begin caller m hc =>
    have hnot := hbegin rfl
    simp [hc, Crit.begins] at hnot
  | launched caller m pid hc hfree =>
    have hcreating : s.isCreating = true := by simp [Sup.isCreating, hc, Crit.creating]
    exact ⟨rfl, le_rfl, fun _ => hcreating, fun _ _ => .inr hcreating⟩
  | failed caller m e hc =>
    exact .same hp (by simp) (by simp)
      (.inr (by simp [Sup.worker])) (.inr (by simp))
  | record caller m child pid hc =>
    refine ⟨by simp, by simp, by simp [Sup.isCreating], ?_⟩
    intro child' hcurrent
    -- The pid that is recorded stands for the child just created.
    have hworker : workerOf (s.procs.modify child Proc.startWait) pid = some child :=
      (workerOf_modify Proc.startWait_pid Proc.startWait_launchedFor s.procs child pid).trans
        (hr caller m child pid hc)
    obtain rfl : child = child' := by
      simpa [Sup.current, Sup.worker, hworker] using hcurrent
    exact .inl (by simp [Sup.current, hc, Crit.created])
  | count m hc =>
    refine .same hp (by simp) (by simp) (.inl (by simp [Sup.worker])) (.inr ?_)
    rcases countStep_holder s m cfg with heq | heq
    · simp [heq]
    · simp [heq, Crit.creating, Crit.created]
  | write ok status startedAt hpoll =>
    exact .same hp (by simp) le_rfl (.inl (by simp [Sup.worker])) (.inl rfl)
  | _ => exact .same hp rfl le_rfl (.inl rfl) (.inl rfl)

/-- What happens to the status of a worker that loads: nothing, `poll` writes it, or the worker is
gone. -/
theorem Step.loading_status (hs : Step cfg s a ev s') (hp : s.PidOk)
    (hbegin : a = .run → s.holder.any Crit.begins = false) :
    s'.st.status = s.st.status ∨
      (a = .poll ∧ s'.st.status = (s.poller.verdict s.clock).getD s.st.status) ∨
      (s'.st.pid = none ∧ s'.holder.bind Crit.creating = none ∧
        s'.holder.bind Crit.created = none) := by
  cases hs with
  | waitSection i c hc hw =>
    rcases s.st.childExited_cases c.pid with ⟨-, heq⟩ | ⟨hsome, hnone, -⟩
    · exact .inl (congrArg WorkerState.status heq)
    · exact .inr (.inr ⟨hnone, hp.not_creating (by simp [hsome])⟩)
  | finish caller hc =>
    refine .inr (.inr ⟨by simp, ?_⟩)
    cases caller <;> simp [afterStop, Crit.creating, Crit.created]
  | spawnReturn caller m ok pc hc hpc => exact .inl (by simp)
  | begin caller m hc =>
    have hnot := hbegin rfl
    simp [hc, Crit.begins] at hnot
  | failed caller m e hc => exact .inr (.inr ⟨by simp, by simp⟩)
  | record caller m child pid hc => exact .inl (by simp)
  | count m hc => exact .inl (by simp)
  | write ok status startedAt hpoll =>
    refine .inr (.inl ⟨rfl, ?_⟩)
    simp only [Poller.verdict, hpoll]
    exact pollResult_status _ _ _ _ _
  | _ => exact .inl rfl

theorem spawnReturned_write {t : Sup} {m : Model} {ok' : Bool} {caller : Spawner} {ok : Bool}
    {status : WorkerStatus} {startedAt : Option ℕ}
    (h : (spawnReturned t m ok' caller).1.poller = .write ok status startedAt) :
    t.poller = .write ok status startedAt := by
  cases caller <;> cases ok' <;> simp_all [spawnReturned]

/-- A result that is about to be written was so before, or its snapshot has just been taken. -/
theorem Step.poller_write (hs : Step cfg s a ev s') {ok : Bool} {status : WorkerStatus}
    {startedAt : Option ℕ} (h : s'.poller = .write ok status startedAt) :
    s.poller = .write ok status startedAt ∨
      (status = s.st.status ∧ startedAt = s.st.startedAt) := by
  cases hs with
  | pollMove p p' hp hm =>
    obtain rfl : p' = .write ok status startedAt := h
    cases hm with
    | snapshot => exact .inr ⟨rfl, rfl⟩
  | finish caller hc => exact .inl (by simpa using h)
  | spawnReturn caller m ok' pc hc hpc => exact .inl (spawnReturned_write h)
  | failed | record =>
    have hbefore := spawnReturned_write h
    exact .inl hbefore
  | count m hc =>
    rcases countStep_cases s m cfg with ⟨heq, -⟩ | ⟨heq, -⟩
    · simp [heq] at h
    · exact .inl (by simpa [heq] using h)
  | recovered | probe | write | want | slotsWrite => simp at h
  | _ => exact .inl h

/-- `maybe_restart` goes past its checks for a worker that is marked `Crashed`. -/
theorem Step.isRestarting (hs : Step cfg s a ev s')
    (h : s'.holder.any Crit.isRestarting = true) :
    s.holder.any Crit.isRestarting = true ∨ s.st.status.isCrashed = true := by
  cases hs with
  | grant w ws hh hq => cases w <;> simp [Waiter.entry, Crit.isRestarting] at h
  | move c c' hc hm =>
    cases hm with
    | recheck m hcrashed => exact .inr hcrashed
    | notRunning | stopFirst | noWorker | begin => simp [Crit.isRestarting] at h
    | readPid caller | noPid caller | graceOver caller | sleep caller | slept caller
    | gone caller =>
      rw [hc]
      cases caller <;> simp_all [Crit.isRestarting]
  | setStopping caller pid hc | term caller pid hc | kill caller pid hc
  | termFails caller pid hc | killFails caller pid hc =>
    rw [hc]
    cases caller <;> simp_all [Crit.isRestarting]
  | finish caller hc => cases caller <;> simp [afterStop, Crit.isRestarting] at h
  | count m hc => exact .inl (by simp [hc, Crit.isRestarting])
  | dropHolder | running | reset | spawnReturn | begin | launched | execFailed | failed | record
  | recovered => simp [Crit.isRestarting] at h
  | _ => exact .inl h

end Step

/-! ## The invariant -/

/-- **While a worker loads**, it is taken for loading: in the state, in a fresh snapshot, and by
`maybe_restart`. -/
structure GraceKept (tr : List LoadEvent) (s : Sup) : Prop where
  status : Loading tr s → s.st.status = .starting
  snapshot : ∀ ok status startedAt, s.poller = .write ok status startedAt →
    snapshotIsFresh tr = true → Loading tr s →
      status = .starting ∧ startedAt = s.st.startedAt
  restart : s.holder.any Crit.isRestarting = true → ¬ Loading tr s

/-- A load that goes on was there before. -/
theorem Continues.loading {s s' : Sup} {tr ev : List LoadEvent} (h : Continues s s')
    (hloading : Loading (ev ++ tr) s') : Loading tr s := by
  obtain ⟨hworker, t, ht, hclock⟩ := hloading
  refine ⟨?_, t, ?_, h.clock.trans hclock⟩
  · rcases hworker with hcreating | ⟨child, hcurrent, hunanswered⟩
    · exact .inl (h.creating hcreating)
    · rcases h.current child hcurrent with hbefore | hcreating
      · exact .inr ⟨child, hbefore, fun hmem => hunanswered (List.mem_append_right _ hmem)⟩
      · exact .inl hcreating
  · rw [← h.startedAt]
    exact ht

/-- A verdict on a fresh snapshot of a load: there is none for a minute. -/
theorem pollVerdict_of_inGrace {s : Sup} (h : s.InGrace) :
    pollVerdict false .starting s.st.startedAt s.clock = none := by
  obtain ⟨t, ht, hclock⟩ := h
  have hstarted : s.st.startedAt = some t := ht
  have hrecent : ¬ 60000 < s.clock - t := by omega
  simp [pollVerdict, hstarted, elapsedMoreThan, hrecent]

/-- The announcement of a start. -/
theorem step_begins {cfg : Config} {s s' : Sup} {ev : List Event}
    (hbegins : s.holder.any Crit.begins = true) (hs : step cfg s .run = some (s', ev)) :
    s'.st.status = .starting ∧ s'.holder.any Crit.isRestarting = false := by
  obtain ⟨c, hc, hb⟩ := (Option.any_eq_true _ _).mp hbegins
  cases c with
  | spawn caller m pc =>
    cases pc with
    | begin =>
      simp only [step, hc, holderStep, spawnStep] at hs
      obtain ⟨rfl, -⟩ := Prod.mk.inj (Option.some.inj hs)
      exact ⟨rfl, rfl⟩
    | _ => simp [Crit.begins] at hb
  | _ => simp [Crit.begins] at hb

/-- With a result in hand `poll` takes no snapshot, so a fresh one is that of the result. -/
theorem snapshotIsFresh_of_append {s : Sup} {a : Act} {tr : List LoadEvent}
    (hpoller : s.poller.takesSnapshot = false)
    (h : snapshotIsFresh (loadEvents s a ++ tr) = true) : snapshotIsFresh tr = true := by
  cases a with
  | run =>
    by_cases hb : s.holder.any Crit.begins = true
    · simp [loadEvents, hb, snapshotIsFresh] at h
    · simpa [loadEvents, hb] using h
  | poll => simpa [loadEvents, hpoller] using h
  | probeAnswer child =>
    cases child with
    | none => exact h
    | some child => exact h
  | _ => exact h

/-- The status of a load after a step that announces no start. -/
theorem GraceKept.status_step {cfg : Config} {s s' : Sup} {a : Act} {tr ev : List LoadEvent}
    {ev' : List Event} (h : GraceKept tr s) (hp : s.PidOk) (hok : OwnResults tr s a)
    (hs : Step cfg s a ev' s') (hbegin : a = .run → s.holder.any Crit.begins = false)
    (hbefore : Loading tr s) (hloading : Loading (ev ++ tr) s') : s'.st.status = .starting := by
  rcases hs.loading_status hp hbegin with heq | ⟨rfl, heq⟩ | ⟨hnone, hcreating, hcreated⟩
  · rw [heq]
    exact h.status hbefore
  · -- A success is excluded, and a failure has nothing to write.
    obtain ⟨hsuccess, hfresh⟩ := hok rfl hbefore
    have hverdict : s.poller.verdict s.clock = none := by
      cases hpoll : s.poller with
      | write ok status startedAt =>
        cases ok with
        | true => simp [hpoll, Poller.writesSuccess] at hsuccess
        | false =>
          by_contra hsome
          have hisSome : (s.poller.verdict s.clock).isSome = true := by
            rw [hpoll]
            exact Option.isSome_iff_ne_none.mpr hsome
          obtain ⟨rfl, rfl⟩ := h.snapshot _ _ _ hpoll (hfresh hisSome) hbefore
          exact hsome (pollVerdict_of_inGrace hbefore.2)
      | _ => rfl
    rw [heq, hverdict]
    exact h.status hbefore
  · rcases hloading.1 with hcr | ⟨child, hcurrent, -⟩
    · simp [Sup.isCreating, hcreating] at hcr
    · have hno : s'.current = none := by simp [Sup.current, Sup.worker, hnone, hcreated]
      exact absurd (hno.symm.trans hcurrent) (by simp)

/-- **Every step keeps the grace.** -/
theorem GraceKept.step {cfg : Config} {s s' : Sup} {a : Act} {tr : List LoadEvent}
    {ev' : List Event} (h : GraceKept tr s) (hp : s.PidOk) (hr : RecordOk s)
    (hok : OwnResults tr s a) (hs : step cfg s a = some (s', ev')) :
    GraceKept (loadEvents s a ++ tr) s' := by
  have hstep := step_cases hs
  by_cases hbegin : a = .run ∧ s.holder.any Crit.begins = true
  · obtain ⟨rfl, hb⟩ := hbegin
    obtain ⟨hstarting, hrestart⟩ := step_begins hb hs
    have hev : loadEvents s .run = [.began] := by simp [loadEvents, hb]
    rw [hev]
    exact ⟨fun _ => hstarting, fun _ _ _ _ hfresh => absurd hfresh (by simp [snapshotIsFresh]),
      fun hr => absurd (hrestart.symm.trans hr) (by simp)⟩
  · have hnot : a = .run → s.holder.any Crit.begins = false := by
      intro ha
      exact Bool.eq_false_iff.mpr fun hb => hbegin ⟨ha, hb⟩
    have hcont := hstep.continues hp hr hnot
    refine ⟨fun hloading => ?_, fun ok status startedAt hpoll hfresh hloading => ?_,
      fun hrestart hloading => ?_⟩
    · exact h.status_step hp hok hstep hnot (hcont.loading hloading) hloading
    · have hbefore := hcont.loading hloading
      rw [hcont.startedAt]
      rcases hstep.poller_write hpoll with hsame | ⟨rfl, rfl⟩
      · have hpoller : s.poller.takesSnapshot = false := by simp [hsame, Poller.takesSnapshot]
        exact h.snapshot _ _ _ hsame (snapshotIsFresh_of_append hpoller hfresh) hbefore
      · exact ⟨h.status hbefore, rfl⟩
    · have hbefore := hcont.loading hloading
      rcases hstep.isRestarting hrestart with hold | hcrashed
      · exact h.restart hold hbefore
      · rw [h.status hbefore] at hcrashed
        exact absurd hcrashed (by simp)

/-- The grace is kept in every run with the worker's own results. -/
theorem graceKept_of_run {cfg : Config} {tr : List LoadEvent} {s : Sup}
    (h : (loading cfg).Run OwnResults tr s) : GraceKept tr s ∧ s.PidOk ∧ RecordOk s := by
  refine h.invariant (I := fun tr s => GraceKept tr s ∧ s.PidOk ∧ RecordOk s) ?_ ?_
  · rintro s ⟨autostart, rfl⟩
    have hstart : (supervisor cfg).Run Anything [] (Sup.init autostart) := .start ⟨autostart, rfl⟩
    refine ⟨⟨?_, ?_, ?_⟩, pidOk_of_run hstart, recordOk_of_ne ?_⟩
    · rintro ⟨-, t, ht, -⟩
      exact absurd ht (by simp [Sup.init, WorkerState.new])
    · intro ok status startedAt hpoll
      cases autostart <;> simp [Sup.init] at hpoll
    · intro hrestart
      cases autostart <;> simp [Sup.init, Crit.isRestarting] at hrestart
    · cases autostart <;> simp [Sup.init, Crit.created]
  · rintro tr s a s' ev - hok hs ⟨hgrace, hp, hr⟩
    obtain ⟨rfl, ev', hstep⟩ := observe_step hs
    exact ⟨hgrace.step hp hr hok hstep, (step_cases hstep).pidOk hp, (step_cases hstep).recordOk hr⟩

/-- **A load is given its grace**, in every run in which `poll` writes no success while a worker
loads, and no failure on a snapshot from before it. -/
theorem load_keeps_grace {cfg : Config} {tr : List LoadEvent} {s : Sup}
    (h : (loading cfg).Run OwnResults tr s) : LoadGrace tr s := by
  have hgrace := (graceKept_of_run h).1
  have hloading : ∀ child, LoadingWorker tr s child → Loading tr s :=
    fun child hchild => ⟨.inr ⟨child, hchild.current, hchild.unanswered⟩, hchild.inGrace⟩
  constructor
  · intro child hchild
    rw [hgrace.status (hloading child hchild)]
    rfl
  · intro child hchild
    exact Bool.eq_false_iff.mpr fun hrestart => hgrace.restart hrestart (hloading child hchild)

/-- The steps of a switch from A to B during a probe, up to the answer and from the new worker
on. -/
def switchDuringProbe : List Act × List Act :=
  (List.flatten [startFully modelA 7, pollOnce (some 0), pollRest, [.poll, .poll, .poll],
    [.callStart modelB, .grant, .run, .run, .run, .run, .run, .exit 0]],
    [.run, .run, .run, .run, .run, .run, .exec (.spawned 8), .run])

/-- The probe fails during the switch, and the snapshot is the new worker's. -/
theorem load_keeps_grace_switch :
    ∃ tr s, (loading sampleConfig).Run OwnResults tr s ∧ LoadingWorker tr s 1 ∧ LoadGrace tr s := by
  have hreach := Run.reaches (loading sampleConfig) OwnResults
    (List.flatten [switchDuringProbe.1, [.probeAnswer none], switchDuringProbe.2, [.poll, .poll]])
    (fun tr s => decide (s.current = some 1 ∧ (s.procs[1]?.any Proc.live = true) ∧
      .answered 1 ∉ tr ∧ s.InGrace)) ⟨none, rfl⟩ (by decide) (by decide)
  obtain ⟨tr, s, hrun, hp⟩ := hreach
  obtain ⟨hcurrent, hlive, hunanswered, hgrace⟩ := of_decide_eq_true hp
  exact ⟨tr, s, hrun, ⟨hcurrent, (Option.any_eq_true _ _).mp hlive, hunanswered, hgrace⟩,
    load_keeps_grace hrun⟩

/-- The snapshot is that of the worker before, and its failure is written over the new one. -/
theorem stale_snapshot_ends_grace :
    ¬ ∀ tr s, (loading sampleConfig).Run Anything tr s → LoadGrace tr s := by
  intro hall
  have hreach := Run.reaches (loading sampleConfig) Anything
    (List.flatten [switchDuringProbe.1, [.probeAnswer none, .poll], switchDuringProbe.2, [.poll]])
    (fun tr s => decide (s.current = some 1 ∧ (s.procs[1]?.any Proc.live = true) ∧
      .answered 1 ∉ tr ∧ s.InGrace ∧ s.st.status.isCrashed = true)) ⟨none, rfl⟩
    (admits_anything _ _ _) (by decide)
  obtain ⟨tr, s, hrun, hp⟩ := hreach
  obtain ⟨hcurrent, hlive, hunanswered, hgrace, hcrashed⟩ := of_decide_eq_true hp
  have hnot := (hall tr s hrun).notCrashed 1
    ⟨hcurrent, (Option.any_eq_true _ _).mp hlive, hunanswered, hgrace⟩
  exact absurd (hnot.symm.trans hcrashed) (by simp)

end LlmCtl
