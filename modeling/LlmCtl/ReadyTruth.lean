/-
# Is `Ready` truthful?

`Ready` should mean that the recorded worker itself answered the health probe.  `poll`
sends the probe without any lock and writes its result without a second look at the
pid, so the result of a worker that is gone may be written over the state of its
successor, or over the crash of the worker itself.  In every run in which the writing
section of `poll` has nothing to write when the worker is no longer the probed one,
`Ready` is truthful.
-/
import LlmCtl.SingleWorker

namespace LlmCtl

open EventSystem WorkerState

/-! ## The property -/

/-- The child that was the current worker when the last health probe was sent. -/
def lastProbe : List Event → Option ℕ
  | [] => none
  | .probeSent w :: _ => w
  | _ :: tr => lastProbe tr

/-- The same for the successful probe whose result was written last. -/
def readyProbe : List Event → Option ℕ
  | [] => none
  | .polled true _ _ _ :: tr => lastProbe tr
  | _ :: tr => readyProbe tr

/-- `Ready` was set by a probe of the current worker. -/
def ReadyOk (tr : List Event) (s : Sup) : Prop :=
  s.st.status = .ready → ∃ w, s.worker = some w ∧ readyProbe tr = some w

/-- A result obtained for a child that is not the current worker does not change the
status. -/
def NoStaleResult : List Event → Prop :=
  Each fun before e => ∀ ok old new w, e = .polled ok old new w →
    (w = none ∨ w ≠ lastProbe before) → new = old

/-- **`Ready` is truthful.** -/
structure ReadyTruthful (tr : List Event) (s : Sup) : Prop where
  pid : s.st.status = .ready → s.st.pid.isSome = true
  ready : ReadyOk tr s
  noStale : NoStaleResult tr

/-! ## The condition -/

/-- At the writing section of `poll`, the child probed is still the current worker, or there
is nothing to write. -/
def FreshResult (tr : List Event) (s : Sup) (a : Act) : Prop :=
  a.isPoll = true → (s.worker = none ∨ s.worker ≠ lastProbe tr) →
    s.poller.verdict s.clock = none

instance (tr : List Event) (s : Sup) (a : Act) : Decidable (FreshResult tr s a) :=
  inferInstanceAs (Decidable (a.isPoll = true →
    (s.worker = none ∨ s.worker ≠ lastProbe tr) → s.poller.verdict s.clock = none))

/-! ## The invariant -/

/-- Events other than results keep the probe behind `Ready`. -/
theorem readyProbe_append {ev tr : List Event}
    (h : ∀ ok old new w, .polled ok old new w ∉ ev) : readyProbe (ev ++ tr) = readyProbe tr := by
  apply ignores_append
  intro e he before
  cases e with
  | polled ok old new w => exact absurd he (h ok old new w)
  | _ => rfl

theorem readyOk_of_ne {tr : List Event} {s : Sup} (h : s.st.status ≠ .ready) : ReadyOk tr s :=
  fun hr => absurd hr h

/-- A step that emits no result and leaves status and worker alone. -/
theorem ReadyOk.same {tr ev : List Event} {s s' : Sup} (h : ReadyOk tr s)
    (hev : ∀ ok old new w, .polled ok old new w ∉ ev) (hst : s'.st.status = s.st.status)
    (hw : s'.worker = s.worker) : ReadyOk (ev ++ tr) s' := by
  intro hr
  rw [readyProbe_append hev, hw]
  exact h (hst ▸ hr)

/-- While no pid is recorded the status is not `Ready`. -/
theorem ReadyOk.ne_ready {tr : List Event} {s : Sup} (h : ReadyOk tr s)
    (hp : s.st.pid = none) : s.st.status ≠ .ready := by
  intro hr
  obtain ⟨w, hw, -⟩ := h hr
  rw [Sup.worker, hp] at hw
  exact absurd hw (by simp)

/-- Edits of the table that keep pids and origins keep the worker. -/
theorem worker_modify {s s' : Sup} (f : Proc → Proc) (i : ℕ) (hp : ∀ c, (f c).pid = c.pid)
    (hl : ∀ c, (f c).launchedFor = c.launchedFor) (hpid : s'.st.pid = s.st.pid)
    (hprocs : s'.procs = s.procs.modify i f) : s'.worker = s.worker := by
  unfold Sup.worker
  rw [hpid, hprocs]
  congr 1
  funext pid
  exact workerOf_modify hp hl _ _ _

/-- A stranger is never the worker. -/
theorem worker_stranger (s : Sup) (pid : ℕ) (cmdline : List String) :
    ({ s with procs := s.procs ++ [stranger pid cmdline] } : Sup).worker = s.worker := by
  unfold Sup.worker
  congr 1
  funext p
  exact workerOf_stranger _ _ _ _

/-- A worker that is killed stays the worker until its pid is cleared. -/
theorem worker_sigkill (s : Sup) (pid : ℕ) (c : Crit) :
    ({ s with procs := sigkill s.procs pid }.goto c).worker = s.worker := by
  unfold Sup.worker
  congr 1
  funext p
  exact workerOf_sigkill _ _ _

/-- Every step that writes no result keeps the invariant. -/
theorem Step.readyOk {cfg : Config} {s s' : Sup} {a : Act} {tr ev : List Event}
    (hs : Step cfg s a ev s') (hp : s.PidOk)
    (hev : ∀ ok old new w, .polled ok old new w ∉ ev) (h : ReadyOk tr s) :
    ReadyOk (ev ++ tr) s' := by
  cases hs with
  | exit i c hc hrun =>
    exact h.same hev rfl (worker_modify Proc.die i (fun _ => rfl) (fun _ => rfl) rfl rfl)
  | appear pid cmdline hfree => exact h.same hev rfl (worker_stranger s pid cmdline)
  | reap i c hc hw hz =>
    exact h.same hev rfl (worker_modify Proc.reap i (fun _ => rfl) (fun _ => rfl) rfl rfl)
  | waitSection i c hc hw =>
    rcases s.st.childExited_cases c.pid with ⟨-, heq⟩ | ⟨-, -, hne⟩
    · refine h.same hev (by rw [heq]) ?_
      exact worker_modify Proc.waitDone i (fun _ => rfl) (fun _ => rfl) (by simp [heq]) rfl
    · exact readyOk_of_ne hne
  | kill caller pid hc => exact h.same hev rfl (worker_sigkill s pid _)
  | finish caller hc => exact readyOk_of_ne (by simp)
  | reset m hc => exact h.same hev rfl rfl
  | spawnReturn caller m ok pc hc hpc => exact h.same hev (by simp) (by simp [Sup.worker])
  | begin caller m hc => exact readyOk_of_ne (by simp)
  | launched caller m pid hc hfree =>
    -- The new child may have the old worker's pid, but none is recorded.
    have hnone : s.st.pid = none := hp _ hc
    exact readyOk_of_ne (h.ne_ready hnone)
  | failed caller m e hc => exact readyOk_of_ne (by simp)
  | record caller m child pid hc =>
    have hnone : s.st.pid = none := hp _ hc
    exact readyOk_of_ne (by simpa using h.ne_ready hnone)
  | count m hc =>
    exact h.same hev (by simp) (by simp [Sup.worker])
  | write ok status startedAt hpoll => exact absurd List.mem_cons_self (hev _ _ _ _)
  | _ => exact h.same hev rfl rfl

/-- The writing section of `poll` keeps it when it has nothing stale to write. -/
theorem readyOk_write {tr : List Event} {s : Sup} {ok : Bool} {status : WorkerStatus}
    {startedAt : Option ℕ} {old new : WorkerStatus} {w : Option ℕ}
    (hok : (s.worker = none ∨ s.worker ≠ lastProbe tr) →
      pollVerdict ok status startedAt s.clock = none)
    (h : ReadyOk tr s) :
    ReadyOk (.polled ok old new w :: tr)
      { s with st := s.st.pollResult ok status startedAt s.clock, poller := .flag } := by
  have hworker : ({ s with
      st := s.st.pollResult ok status startedAt s.clock
      poller := .flag } : Sup).worker = s.worker := by simp [Sup.worker]
  intro hr
  rw [hworker]
  cases ok with
  | true =>
    -- A success has a verdict, so it is a success of the current worker.
    have hfresh : ¬ (s.worker = none ∨ s.worker ≠ lastProbe tr) := fun hstale =>
      absurd (hok hstale) (by simp [pollVerdict])
    push Not at hfresh
    obtain ⟨w', hw'⟩ := Option.ne_none_iff_exists'.mp hfresh.1
    refine ⟨w', hw', ?_⟩
    show lastProbe tr = some w'
    rw [← hfresh.2, hw']
  | false =>
    have hst : (s.st.pollResult false status startedAt s.clock).status = .ready := hr
    rw [pollResult_status] at hst
    cases hv : pollVerdict false status startedAt s.clock with
    | none =>
      rw [hv] at hst
      exact h hst
    | some v =>
      rw [hv] at hst
      have hcr := isCrashed_of_pollVerdict hv
      rw [show v = .ready from hst] at hcr
      exact absurd hcr (by simp)

/-- `Ready` is the current worker's own in every run without stale results. -/
theorem readyOk_of_run {cfg : Config} {tr : List Event} {s : Sup}
    (h : (supervisor cfg).Run FreshResult tr s) : ReadyOk tr s := by
  refine h.invariant (I := ReadyOk) ?_ ?_
  · rintro s ⟨autostart, rfl⟩
    exact readyOk_of_ne (by simp [Sup.init, WorkerState.new])
  · intro tr s a s' ev hrun hok hs ih
    have hstep := step_cases hs
    by_cases hl : ∃ ok old new w, .polled ok old new w ∈ ev
    · obtain ⟨ok, old, new, w, hmem⟩ := hl
      obtain ⟨status, startedAt, rfl, hp, -, -, -, hev⟩ := hstep.of_polled hmem
      have hstep' : step cfg s .poll = some (s', ev) := hs
      simp only [step, pollerStep, hp, Option.some.injEq, Prod.mk.injEq] at hstep'
      obtain ⟨rfl, rfl⟩ := hstep'
      refine readyOk_write (fun hstale => ?_) ih
      simpa [Poller.verdict, hp] using hok rfl hstale
    · push Not at hl
      exact hstep.readyOk (pidOk_of_run hrun) hl ih

/-! ## Results -/

/-- **`Ready` is truthful** in every run in which the writing section of `poll` writes
nothing once the probed child is no longer the current worker. -/
theorem ready_truthful_of_fresh {cfg : Config} {tr : List Event} {s : Sup}
    (h : (supervisor cfg).Run FreshResult tr s) : ReadyTruthful tr s where
  pid := by
    intro hr
    obtain ⟨w, hw, -⟩ := readyOk_of_run h hr
    unfold Sup.worker at hw
    cases hp : s.st.pid with
    | none => exact absurd hw (by simp [hp])
    | some pid => rfl
  ready := readyOk_of_run h
  noStale := by
    refine h.each fun tr s a s' ev hrun hok hs htr => ?_
    by_cases hl : ∃ ok old new w, .polled ok old new w ∈ ev
    · obtain ⟨ok, old, new, w, hmem⟩ := hl
      obtain ⟨status, startedAt, rfl, hp, rfl, rfl, rfl, rfl⟩ := (step_cases hs).of_polled hmem
      refine ⟨?_, htr⟩
      intro ok' old' new' w' heq hstale
      obtain ⟨-, rfl, rfl, rfl⟩ : ok = ok' ∧ s.st.status = old' ∧
          (s.st.pollResult ok status startedAt s.clock).status = new' ∧ s.worker = w' := by
        simpa using heq
      have hnone : pollVerdict ok status startedAt s.clock = none := by
        simpa [Poller.verdict, hp] using hok rfl hstale
      rw [pollResult_status, hnone, Option.getD_none]
    · exact htr.append fun e he before ok old new w hem =>
        absurd ⟨ok, old, new, w, hem ▸ he⟩ hl

/-- A worker becomes ready, is replaced during a later probe that fails in time, and the
new worker becomes ready. -/
theorem ready_truthful_of_fresh_switch :
    ∃ tr s, (supervisor sampleConfig).Run FreshResult tr s ∧ s.st.status = .ready ∧
      readyProbe tr = some 1 ∧ ReadyTruthful tr s := by
  have hreach := Run.reaches (supervisor sampleConfig) FreshResult
    (List.flatten [startFully modelA 7, pollOnce (some 0), pollRest, [.poll, .poll, .poll],
      [.callStart modelB, .grant, .run, .run, .run, .run, .run, .exit 0, .run, .run, .run],
      [.run, .run, .run, .exec (.spawned 8), .run],
      -- The snapshot is the new worker's `Starting`.
      [.probeAnswer none, .poll, .poll], pollRest, pollOnce (some 1)])
    (fun tr s => s.st.status = .ready ∧ readyProbe tr = some 1) ⟨none, rfl⟩
    (by decide) (by decide)
  obtain ⟨tr, s, hrun, hp⟩ := hreach
  obtain ⟨hready, hprobe⟩ := of_decide_eq_true hp
  exact ⟨tr, s, hrun, hready, hprobe, ready_truthful_of_fresh hrun⟩

/-- **A false `Ready`**: in an orderly run the worker answers the probe and exits before the
result is written. -/
theorem stale_success_is_written :
    ∃ tr s, (supervisor sampleConfig).Run (Orderly sampleConfig) tr s ∧
      ¬ ReadyTruthful tr s := by
  have hreach := Run.reaches (supervisor sampleConfig) (Orderly sampleConfig)
    (List.flatten [startFully modelA 7, [.poll, .poll, .poll, .probeAnswer (some 0), .poll],
      [.exit 0, .reap 0, .waitSection 0, .poll]])
    (fun _ s => s.st.status = .ready ∧ s.st.pid = none) ⟨none, rfl⟩ (by decide)
    (by decide)
  obtain ⟨tr, s, hrun, hp⟩ := hreach
  obtain ⟨hready, hnone⟩ := of_decide_eq_true hp
  refine ⟨tr, s, hrun, fun h => ?_⟩
  have hsome := h.pid hready
  rw [hnone] at hsome
  exact absurd hsome (by simp)

end LlmCtl
