/-
# What the `lifecycle` lock guarantees

Two invariants that hold in every run, whatever else happens: which pid can be
recorded while the lock's owner is at a given point, and that the poller's restart
is under way exactly once while the poller is inside `maybe_restart`.
-/
import LlmCtl.SupervisorStep
import Mathlib.Data.List.Basic

namespace LlmCtl

open EventSystem

/-! ## The recorded pid -/

/-- The pids that can be recorded while the owner is at a program point: none from
the reset of the counter to the end of `spawn`, and in `stop_inner` only the pid
that it read. -/
def Crit.PidOk (pid : Option ℕ) : Crit → Prop
  | .startReset _ | .spawn _ _ _ => pid = none
  | .stopInner _ pc =>
    match pc with
    | .setStopping p | .term p | .grace p _ | .sleep p _ | .killIfAlive p =>
      pid = none ∨ pid = some p
    | .readPid | .finish => True
  | .startCheck _ | .startPid _ | .recheck _ | .count _ => True

/-- Clearing the pid is fine everywhere. -/
theorem Crit.pidOk_none (c : Crit) : c.PidOk none := by
  cases c with
  | stopInner caller pc => cases pc <;> simp [Crit.PidOk]
  | _ => simp [Crit.PidOk]

/-- No waiter relies on the pid when it gets the lock. -/
theorem Waiter.entry_pidOk (w : Waiter) (pid : Option ℕ) : w.entry.PidOk pid := by
  cases w <;> trivial

/-- The pid invariant of a state. -/
def Sup.PidOk (s : Sup) : Prop := ∀ c, s.holder = some c → c.PidOk s.st.pid

/-- A state in which the owner is at `c`. -/
theorem Sup.pidOk_goto {s : Sup} {c : Crit} (h : c.PidOk s.st.pid) : (s.goto c).PidOk := by
  intro c' hc'
  obtain rfl : c = c' := by simpa using hc'
  exact h

/-- A state in which the lock is free. -/
theorem Sup.pidOk_of_free {s : Sup} (h : s.holder = none) : s.PidOk := by
  intro c hc
  rw [h] at hc
  exact absurd hc (by simp)

theorem CritMove.pidOk {s : Sup} {c c' : Crit} (hm : CritMove s c c')
    (h : c.PidOk s.st.pid) : c'.PidOk s.st.pid := by
  cases hm with
  | noWorker m hp => exact hp
  | readPid caller pid hp => exact .inr hp
  | graceOver caller pid left => exact h
  | sleep caller pid left => exact h
  | slept caller pid left => exact h
  | begin caller m hr => exact h
  | _ => trivial

/-- Every step keeps the pid invariant. -/
theorem Step.pidOk {cfg : Config} {s s' : Sup} {a : Act} {ev : List Event}
    (hs : Step cfg s a ev s') (h : s.PidOk) : s'.PidOk := by
  cases hs with
  | waitSection i c hc hw =>
    intro c' hc'
    rcases s.st.childExited_cases c.pid with ⟨-, heq⟩ | ⟨-, hnone, -⟩
    · simpa [heq] using h c' hc'
    · simpa [hnone] using c'.pidOk_none
  | dropHolder c hc hh ha => exact Sup.pidOk_of_free rfl
  | grant w ws hh hq => exact Sup.pidOk_goto (w.entry_pidOk _)
  | move c c' hc hm => exact Sup.pidOk_goto (hm.pidOk (h c hc))
  | running m hc => exact Sup.pidOk_of_free rfl
  | setStopping caller pid hc => exact Sup.pidOk_goto (h _ hc :)
  | term caller pid hc | termFails caller pid hc => exact Sup.pidOk_goto (h _ hc :)
  | kill caller pid hc | killFails caller pid hc => exact Sup.pidOk_goto trivial
  | finish caller hc =>
    cases caller with
    | startModel m => exact Sup.pidOk_goto rfl
    | maybeRestart m => exact Sup.pidOk_goto rfl
    | stop => exact Sup.pidOk_of_free rfl
    | shutdown => exact Sup.pidOk_of_free rfl
  | reset m hc => exact Sup.pidOk_goto (h _ hc :)
  | spawnReturn caller m ok pc hc hpc => exact Sup.pidOk_of_free (by simp)
  | begin caller m hc => exact Sup.pidOk_goto (h _ hc :)
  | launched caller m pid hc hp => exact Sup.pidOk_goto (h _ hc :)
  | execFailed caller m e hc => exact Sup.pidOk_goto (h _ hc :)
  | failed caller m e hc => exact Sup.pidOk_of_free (by simp)
  | record caller m child pid hc => exact Sup.pidOk_of_free (by simp)
  | recovered m hc hcr => exact Sup.pidOk_of_free rfl
  | count m hc =>
    rcases countStep_cases s m cfg with ⟨heq, -⟩ | ⟨heq, -⟩
    · rw [heq]
      exact Sup.pidOk_of_free rfl
    · rw [heq]
      exact Sup.pidOk_goto trivial
  | write ok status startedAt hp =>
    intro c hc
    simpa using h c hc
  | _ => exact h

/-- **The pid invariant** holds in every run. -/
theorem pidOk_of_run {cfg : Config} {ok : List Event → Sup → Act → Prop} {tr : List Event}
    {s : Sup} (h : (supervisor cfg).Run ok tr s) : s.PidOk := by
  refine h.invariant (I := fun _ s => s.PidOk) ?_ ?_
  · rintro s ⟨autostart, rfl⟩ c hc
    cases autostart with
    | none => exact absurd hc (by simp [Sup.init])
    | some m =>
      obtain rfl : Crit.spawn .startup m .check = c := by simpa [Sup.init] using hc
      rfl
  · intro tr s a s' ev _ _ hs hi
    exact (step_cases hs).pidOk hi

/-! ## What `poll` is about to write -/

/-- Does the poller move? -/
def Act.isPoll : Act → Bool
  | .poll => true
  | _ => false

/-- The status that the poller is about to write, when it is at the writing section of
`poll` and the section has one to write. -/
def Poller.verdict (now : ℕ) : Poller → Option WorkerStatus
  | .write ok status startedAt => WorkerState.pollVerdict ok status startedAt now
  | _ => none

/-! ## The pending restart -/

/-- Is this the poller's restart? -/
def Waiter.isRestart : Waiter → Bool
  | .maybeRestart _ => true
  | _ => false

/-- Does the poller own the lock? -/
def Crit.isPoller : Crit → Bool
  | .recheck _ | .count _ => true
  | .stopInner (.maybeRestart _) _ => true
  | .spawn .maybeRestart _ _ => true
  | _ => false

/-- Is the poller between its wait for `lifecycle` and the return of `maybe_restart`? -/
def Poller.isRestarting : Poller → Bool
  | .restarting => true
  | _ => false

/-- How many restarts wait for the lock or own it. -/
def Sup.restartsPending (s : Sup) : ℕ :=
  s.queue.countP Waiter.isRestart + (s.holder.any Crit.isPoller).toNat

/-- The bookkeeping invariant: one restart is pending while the poller is inside
`maybe_restart`, and none otherwise. -/
def Sup.RestartOk (s : Sup) : Prop := s.restartsPending = s.poller.isRestarting.toNat

theorem Waiter.isRestart_of_isHandler {w : Waiter} (h : w.isHandler = true) :
    w.isRestart = false := by
  cases w <;> simp_all [Waiter.isHandler, Waiter.isRestart]

theorem Crit.isPoller_of_isHandler {c : Crit} (h : c.isHandler = true) :
    c.isPoller = false := by
  cases c with
  | stopInner caller pc => cases caller <;> simp_all [Crit.isHandler, Crit.isPoller]
  | spawn caller m pc => cases caller <;> simp_all [Crit.isHandler, Crit.isPoller]
  | _ => simp_all [Crit.isHandler, Crit.isPoller]

theorem Waiter.entry_isPoller (w : Waiter) : w.entry.isPoller = w.isRestart := by
  cases w <;> rfl

theorem CritMove.isPoller {s : Sup} {c c' : Crit} (hm : CritMove s c c') :
    c'.isPoller = c.isPoller := by
  cases hm with
  | readPid caller | noPid caller | graceOver caller | sleep caller | slept caller
  | gone caller => cases caller <;> rfl
  | begin caller => cases caller <;> rfl
  | _ => rfl

theorem PollMove.isRestarting {s : Sup} {p p' : Poller} (hm : PollMove s p p') :
    p.isRestarting = false ∧ p'.isRestarting = false := by
  cases hm <;> exact ⟨rfl, rfl⟩

/-- Dropping an entry that is not counted keeps the count. -/
theorem countP_eraseIdx_of_false {α : Type*} {p : α → Bool} {l : List α} {n : ℕ} {x : α}
    (hn : l[n]? = some x) (hx : p x = false) : (l.eraseIdx n).countP p = l.countP p := by
  induction l generalizing n with
  | nil => simp at hn
  | cons y l ih =>
    cases n with
    | zero =>
      obtain rfl : y = x := by simpa using hn
      simp [hx]
    | succ n => simp [List.countP_cons, ih (by simpa using hn)]

/-- The owner is the poller: one restart is pending, and it is this one. -/
theorem Sup.RestartOk.owner {s : Sup} (h : s.RestartOk) {c : Crit} (hc : s.holder = some c)
    (hp : c.isPoller = true) :
    s.queue.countP Waiter.isRestart = 0 ∧ s.poller.isRestarting = true := by
  unfold Sup.RestartOk Sup.restartsPending at h
  rw [hc] at h
  simp only [Option.any_some, hp, Bool.toNat_true] at h
  cases hr : s.poller.isRestarting with
  | true =>
    rw [hr, Bool.toNat_true] at h
    exact ⟨by omega, rfl⟩
  | false =>
    rw [hr, Bool.toNat_false] at h
    omega

/-- The owner returns: the count loses what the owner held, and so does the poller. -/
theorem Sup.RestartOk.returned {s s' : Sup} (h : s.RestartOk) {c : Crit}
    (hc : s.holder = some c) (hq : s'.queue = s.queue) (hh : s'.holder = none)
    (hpoll : c.isPoller = false ∧ s'.poller.isRestarting = s.poller.isRestarting ∨
      c.isPoller = true ∧ s'.poller.isRestarting = false) : s'.RestartOk := by
  unfold Sup.RestartOk Sup.restartsPending
  rw [hq, hh]
  rcases hpoll with ⟨hc', hp⟩ | ⟨hc', hp⟩
  · unfold Sup.RestartOk Sup.restartsPending at h
    rw [hc] at h
    simpa [hc', hp] using h
  · simp [(h.owner hc hc').1, hp]

/-- The owner moves on: nothing is gained or lost. -/
theorem Sup.RestartOk.moved {s s' : Sup} (h : s.RestartOk) {c c' : Crit}
    (hc : s.holder = some c) (hq : s'.queue = s.queue) (hh : s'.holder = some c')
    (hp : s'.poller = s.poller) (hcc : c'.isPoller = c.isPoller) : s'.RestartOk := by
  unfold Sup.RestartOk Sup.restartsPending at h ⊢
  rw [hc] at h
  rw [hq, hh, hp]
  simpa [hcc] using h

/-- `main`'s own `spawn` runs before the poller exists and the server accepts. -/
def Sup.StartupOk (s : Sup) : Prop :=
  ∀ m pc, s.holder = some (.spawn .startup m pc) → s.poller = .off ∧ s.main = .startup

theorem Sup.startupOk_of_ne {s : Sup} {c : Crit} (hh : s.holder = some c)
    (hc : ∀ m pc, c ≠ .spawn .startup m pc) : s.StartupOk := by
  intro m pc hs
  rw [hh] at hs
  exact absurd (Option.some.inj hs) (hc m pc)

theorem Sup.startupOk_of_free {s : Sup} (h : s.holder = none) : s.StartupOk := by
  intro m pc hs
  rw [h] at hs
  exact absurd hs (by simp)

theorem Step.startupOk {cfg : Config} {s s' : Sup} {a : Act} {ev : List Event}
    (hs : Step cfg s a ev s') (h : s.StartupOk) : s'.StartupOk := by
  cases hs with
  | dropHolder c hc hh ha => exact Sup.startupOk_of_free rfl
  | grant w ws hh hq =>
    refine Sup.startupOk_of_ne rfl fun m pc => ?_
    cases w <;> simp [Waiter.entry]
  | move c c' hc hm =>
    intro m pc hs
    obtain rfl : c' = .spawn .startup m pc := by simpa using hs
    cases hm with
    | begin => exact h _ _ hc
  | running m hc => exact Sup.startupOk_of_free rfl
  | setStopping caller pid hc => exact Sup.startupOk_of_ne rfl (by simp)
  | term caller pid hc | termFails caller pid hc => exact Sup.startupOk_of_ne rfl (by simp)
  | kill caller pid hc | killFails caller pid hc => exact Sup.startupOk_of_ne rfl (by simp)
  | finish caller hc =>
    cases caller with
    | startModel m => exact Sup.startupOk_of_ne rfl (by simp)
    | maybeRestart m => exact Sup.startupOk_of_ne rfl (by simp)
    | stop => exact Sup.startupOk_of_free rfl
    | shutdown => exact Sup.startupOk_of_free rfl
  | reset m hc => exact Sup.startupOk_of_ne rfl (by simp)
  | spawnReturn caller m ok pc hc hpc => exact Sup.startupOk_of_free (by simp)
  | begin caller m hc =>
    intro m' pc hs
    obtain ⟨rfl, -⟩ : caller = .startup ∧ m = m' ∧ SpawnPc.exec = pc := by simpa using hs
    exact h _ _ hc
  | launched caller m pid hc hp =>
    intro m' pc hs
    obtain ⟨rfl, -⟩ : caller = .startup ∧ m = m' ∧ _ = pc := by simpa using hs
    exact h _ _ hc
  | execFailed caller m e hc =>
    intro m' pc hs
    obtain ⟨rfl, -⟩ : caller = .startup ∧ m = m' ∧ _ = pc := by simpa using hs
    exact h _ _ hc
  | failed caller m e hc => exact Sup.startupOk_of_free (by simp)
  | record caller m child pid hc => exact Sup.startupOk_of_free (by simp)
  | recovered m hc hcr => exact Sup.startupOk_of_free rfl
  | count m hc =>
    rcases countStep_cases s m cfg with ⟨heq, -⟩ | ⟨heq, -⟩
    · rw [heq]
      exact Sup.startupOk_of_free rfl
    · rw [heq]
      exact Sup.startupOk_of_ne rfl (by simp)
  | pollMove p p' hp hm =>
    intro m pc hs
    obtain ⟨hoff, -⟩ := h m pc hs
    rw [hp] at hoff
    subst hoff
    cases hm
  | probe hp =>
    intro m pc hs
    exact absurd ((h m pc hs).1.symm.trans hp) (by simp)
  | write ok status startedAt hp =>
    intro m pc hs
    exact absurd ((h m pc hs).1.symm.trans hp) (by simp)
  | want m hp hm hw =>
    intro m' pc hs
    exact absurd ((h m' pc hs).1.symm.trans hp) (by simp)
  | slotsWrite slots metrics hp =>
    intro m pc hs
    exact absurd ((h m pc hs).1.symm.trans hp) (by simp)
  | markShuttingDown hm =>
    intro m pc hs
    exact absurd ((h m pc hs).2.symm.trans hm) (by simp)
  | drained hm hh =>
    intro m pc hs
    exact absurd ((h m pc hs).2.symm.trans hm) (by simp)
  | _ => exact h

/-- A return from `spawn` keeps the bookkeeping. -/
theorem Sup.RestartOk.spawnReturned {s t : Sup} (h : s.RestartOk) (hst : s.StartupOk)
    {caller : Spawner} {m : Model} {pc : SpawnPc} (hc : s.holder = some (.spawn caller m pc))
    (hq : t.queue = s.queue) (hp : t.poller = s.poller) (ok : Bool) :
    (spawnReturned t m ok caller).1.RestartOk := by
  refine h.returned hc (by simp [hq]) (by simp) ?_
  cases caller with
  | startModel => exact .inl ⟨rfl, by simp [LlmCtl.spawnReturned, hp]⟩
  | maybeRestart => exact .inr ⟨rfl, rfl⟩
  | startup =>
    have hoff : s.poller = .off := (hst m pc hc).1
    refine .inl ⟨rfl, ?_⟩
    rw [hoff]
    cases ok
    · simp [LlmCtl.spawnReturned, hp, hoff]
    · rfl

/-- Every step keeps the restart bookkeeping. -/
theorem Step.restartOk {cfg : Config} {s s' : Sup} {a : Act} {ev : List Event}
    (hs : Step cfg s a ev s') (hst : s.StartupOk) (h : s.RestartOk) : s'.RestartOk := by
  cases hs with
  | call w hw hm =>
    unfold Sup.RestartOk Sup.restartsPending at h ⊢
    simpa [Waiter.isRestart_of_isHandler hw] using h
  | dropWaiting n w hn hw =>
    unfold Sup.RestartOk Sup.restartsPending at h ⊢
    simpa [countP_eraseIdx_of_false hn (Waiter.isRestart_of_isHandler hw)] using h
  | dropHolder c hc hh ha =>
    exact h.returned hc rfl rfl (.inl ⟨Crit.isPoller_of_isHandler hh, rfl⟩)
  | grant w ws hh hq =>
    -- The waiter moves from the queue to the lock, and counts in both places alike.
    unfold Sup.RestartOk Sup.restartsPending at h ⊢
    rw [hh, hq] at h
    simp only [List.countP_cons, Option.any_none, Bool.toNat_false] at h
    simp only [Sup.goto_queue, Sup.goto_holder, Option.any_some, Waiter.entry_isPoller,
      Sup.goto_poller]
    cases hw : w.isRestart <;> simp_all
  | move c c' hc hm => exact h.moved hc rfl rfl rfl hm.isPoller
  | running m hc => exact h.returned hc rfl rfl (.inl ⟨rfl, rfl⟩)
  | setStopping caller pid hc => exact h.moved hc rfl rfl rfl (by cases caller <;> rfl)
  | term caller pid hc | termFails caller pid hc =>
    exact h.moved hc rfl rfl rfl (by cases caller <;> rfl)
  | kill caller pid hc | killFails caller pid hc =>
    exact h.moved hc rfl rfl rfl (by cases caller <;> rfl)
  | finish caller hc =>
    cases caller with
    | startModel m => exact h.moved hc rfl rfl rfl rfl
    | maybeRestart m => exact h.moved hc rfl rfl rfl rfl
    | stop => exact h.returned hc rfl rfl (.inl ⟨rfl, rfl⟩)
    | shutdown => exact h.returned hc rfl rfl (.inl ⟨rfl, rfl⟩)
  | reset m hc => exact h.moved hc rfl rfl rfl rfl
  | spawnReturn caller m ok pc hc hpc => exact h.spawnReturned hst hc rfl rfl ok
  | begin caller m hc => exact h.moved hc rfl rfl rfl (by cases caller <;> rfl)
  | launched caller m pid hc hp => exact h.moved hc rfl rfl rfl (by cases caller <;> rfl)
  | execFailed caller m e hc => exact h.moved hc rfl rfl rfl (by cases caller <;> rfl)
  | failed caller m e hc => exact h.spawnReturned hst hc (by rfl) (by rfl) false
  | record caller m child pid hc => exact h.spawnReturned hst hc (by rfl) (by rfl) true
  | recovered m hc hcr => exact h.returned hc rfl rfl (.inr ⟨rfl, rfl⟩)
  | count m hc =>
    rcases countStep_cases s m cfg with ⟨heq, -⟩ | ⟨heq, -⟩
    · rw [heq]
      exact h.returned hc rfl rfl (.inr ⟨rfl, rfl⟩)
    · rw [heq]
      exact h.moved hc rfl rfl rfl rfl
  | pollMove p p' hp hm =>
    obtain ⟨hp0, hp1⟩ := hm.isRestarting
    unfold Sup.RestartOk Sup.restartsPending at h ⊢
    rw [hp, hp0] at h
    simpa [hp1] using h
  | probe hp =>
    unfold Sup.RestartOk Sup.restartsPending at h ⊢
    rw [hp] at h
    exact h
  | write ok status startedAt hp =>
    unfold Sup.RestartOk Sup.restartsPending at h ⊢
    rw [hp] at h
    exact h
  | want m hp hm hw =>
    unfold Sup.RestartOk Sup.restartsPending at h ⊢
    rw [hp] at h
    simp_all [Poller.isRestarting, Waiter.isRestart]
  | slotsWrite slots metrics hp =>
    unfold Sup.RestartOk Sup.restartsPending at h ⊢
    rw [hp] at h
    exact h
  | drained hm hh =>
    unfold Sup.RestartOk Sup.restartsPending at h ⊢
    simpa [Waiter.isRestart] using h
  | _ => exact h

/-- **The restart bookkeeping** holds in every run. -/
theorem restartOk_of_run {cfg : Config} {ok : List Event → Sup → Act → Prop}
    {tr : List Event} {s : Sup} (h : (supervisor cfg).Run ok tr s) :
    s.RestartOk ∧ s.StartupOk := by
  refine h.invariant (I := fun _ s => s.RestartOk ∧ s.StartupOk) ?_ ?_
  · rintro s ⟨autostart, rfl⟩
    cases autostart with
    | none => exact ⟨rfl, Sup.startupOk_of_free rfl⟩
    | some m => exact ⟨rfl, fun _ _ _ => ⟨rfl, rfl⟩⟩
  · rintro tr s a s' ev _ _ hs ⟨hr, hst⟩
    exact ⟨(step_cases hs).restartOk hst hr, (step_cases hs).startupOk hst⟩

end LlmCtl
