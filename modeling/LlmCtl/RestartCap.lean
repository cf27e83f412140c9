/-
# The cap on automatic restarts

`maybe_restart` compares a `u8` counter with a `u32` cap, in a section of its own before
it waits for `lifecycle`, and increments the counter in another section after it.  For
caps up to 255, and when automatic restarts are off, the counter counts the attempts
since the last reset, never overflows, and no more workers are launched than the cap
allows.  For every larger cap there is a run that overflows the counter.

What makes the split check safe is that at most one restart is pending: until it is
counted, nobody but `start_model` touches the counter, and `start_model` resets it.
-/
import LlmCtl.Lifecycle

namespace LlmCtl

open EventSystem

/-! ## Counting restarts -/

/-- The events after the last reset of the counter. -/
def sinceReset : List Event → List Event
  | [] => []
  | .restartsReset :: _ => []
  | e :: tr => e :: sinceReset tr

/-- `maybe_restart` gets to the announcing section of `spawn`. -/
def Event.isAttempt : Event → Bool
  | .spawning .maybeRestart _ => true
  | _ => false

/-- `maybe_restart` launches a worker. -/
def Event.isRelaunch : Event → Bool
  | .launched .maybeRestart _ _ => true
  | _ => false

def attempts (tr : List Event) : ℕ := (sinceReset tr).countP Event.isAttempt

def relaunches (tr : List Event) : ℕ := (sinceReset tr).countP Event.isRelaunch

/-- Where the owner of `lifecycle` stands with an automatic restart: it may still give up,
it is stopping the stale worker, it is about to create the process, or none of these. -/
inductive RestartPhase where
  | outside
  | deciding
  | stopping
  | launching
  deriving DecidableEq, Repr

def Crit.phase : Crit → RestartPhase
  | .recheck _ | .count _ => .deciding
  | .stopInner (.maybeRestart _) _ => .stopping
  | .spawn .maybeRestart _ .check | .spawn .maybeRestart _ .begin => .stopping
  | .spawn .maybeRestart _ .exec => .launching
  | _ => .outside

def Sup.phase (s : Sup) : RestartPhase := (s.holder.map Crit.phase).getD .outside

/-- **The cap holds**: the launches since the last reset are within the cap, the counter is
the number of attempts (the announced ones and the one that has not come to that yet),
and the increment never overflowed. -/
structure CapHolds (cfg : Config) (tr : List Event) (s : Sup) : Prop where
  launches : relaunches tr ≤ cfg.worker.maxRestarts.toNat
  counter : s.st.restarts.toNat = attempts tr + if s.phase = .stopping then 1 else 0
  noOverflow : .restartsOverflowed ∉ tr

/-! ## The invariant -/

/-- A restart is pending and not counted yet. -/
def Sup.undecided (s : Sup) : Prop :=
  0 < s.queue.countP Waiter.isRestart ∨ s.phase = .deciding

structure CapInv (cfg : Config) (tr : List Event) (s : Sup) : Prop where
  counter : s.st.restarts.toNat = attempts tr + if s.phase = .stopping then 1 else 0
  launches : relaunches tr + (if s.phase = .launching then 1 else 0) ≤ attempts tr
  cap : s.st.restarts.toNat ≤ cfg.worker.maxRestarts.toNat
  pending : s.undecided → cfg.worker.restartOnCrash = true ∧
    s.st.restarts.toNat < cfg.worker.maxRestarts.toNat
  noOverflow : .restartsOverflowed ∉ tr

/-- Events that the counts do not see. -/
def Event.unrelated : Event → Bool
  | .restartsReset | .restartsOverflowed => false
  | .spawning .maybeRestart _ | .launched .maybeRestart _ _ => false
  | _ => true

/-- Unrelated events change no count. -/
theorem counts_append {ev : List Event} (tr : List Event) (h : ∀ e ∈ ev, e.unrelated = true) :
    attempts (ev ++ tr) = attempts tr ∧ relaunches (ev ++ tr) = relaunches tr ∧
      (.restartsOverflowed ∈ ev ++ tr → .restartsOverflowed ∈ tr) := by
  induction ev with
  | nil => exact ⟨rfl, rfl, id⟩
  | cons e ev ih =>
    obtain ⟨ha, hl, ho⟩ := ih fun e' he' => h e' (List.mem_cons_of_mem _ he')
    have he := h e List.mem_cons_self
    have hsince : sinceReset (e :: ev ++ tr) = e :: sinceReset (ev ++ tr) := by
      cases e <;> first | rfl | exact absurd he (by simp [Event.unrelated])
    have hatt : e.isAttempt = false := by
      cases e with
      | spawning caller m => cases caller <;> simp_all [Event.unrelated, Event.isAttempt]
      | _ => rfl
    have hrel : e.isRelaunch = false := by
      cases e with
      | launched caller i m => cases caller <;> simp_all [Event.unrelated, Event.isRelaunch]
      | _ => rfl
    refine ⟨?_, ?_, ?_⟩
    · rw [← ha]
      unfold attempts
      rw [hsince]
      simp [hatt]
    · rw [← hl]
      unfold relaunches
      rw [hsince]
      simp [hrel]
    · intro hmem
      rcases List.mem_cons.mp hmem with rfl | hrest
      · exact absurd he (by simp [Event.unrelated])
      · exact ho hrest

/-- A step without related events: the counter and the queue's restarts stay, and the owner
does not enter a phase of a restart. -/
theorem CapInv.moved {cfg : Config} {tr ev : List Event} {s s' : Sup} (h : CapInv cfg tr s)
    (hev : ∀ e ∈ ev, e.unrelated = true) (hr : s'.st.restarts = s.st.restarts)
    (hq : s'.queue.countP Waiter.isRestart = s.queue.countP Waiter.isRestart)
    (hphase : s'.phase = s.phase ∨ (s.phase ≠ .stopping ∧ s'.phase = .outside)) :
    CapInv cfg (ev ++ tr) s' := by
  obtain ⟨ha, hl, ho⟩ := counts_append tr hev
  have hcounter := h.counter
  have hlaunches := h.launches
  refine ⟨?_, ?_, by rw [hr]; exact h.cap, ?_, fun hm => h.noOverflow (ho hm)⟩
  · rw [hr, ha]
    rcases hphase with heq | ⟨hne, hout⟩
    · rw [heq]
      exact hcounter
    · simpa [hne, hout] using hcounter
  · rw [ha, hl]
    rcases hphase with heq | ⟨-, hout⟩
    · rw [heq]
      exact hlaunches
    · rw [if_neg (by simp [hout])]
      omega
  · rintro (hqueue | hdec)
    · rw [hr]
      exact h.pending (.inl (hq ▸ hqueue))
    · rw [hr]
      rcases hphase with heq | ⟨-, hout⟩
      · exact h.pending (.inr (heq ▸ hdec))
      · exact absurd (hout.symm.trans hdec) (by simp)

theorem Sup.phase_of_holder {s : Sup} {c : Crit} (h : s.holder = some c) :
    s.phase = c.phase := by
  simp [Sup.phase, h]

theorem Sup.phase_of_free {s : Sup} (h : s.holder = none) : s.phase = .outside := by
  simp [Sup.phase, h]

theorem Crit.phase_of_isHandler {c : Crit} (h : c.isHandler = true) : c.phase = .outside := by
  cases c with
  | stopInner caller pc => cases caller <;> simp_all [Crit.isHandler, Crit.phase]
  | spawn caller m pc => cases caller <;> simp_all [Crit.isHandler, Crit.phase]
  | _ => simp_all [Crit.isHandler, Crit.phase]

/-- The owner's moves stay in their phase. -/
theorem CritMove.phase {s : Sup} {c c' : Crit} (hm : CritMove s c c') :
    c'.phase = c.phase := by
  cases hm with
  | readPid caller | noPid caller | graceOver caller | sleep caller | slept caller
  | gone caller => cases caller <;> rfl
  | begin caller => cases caller <;> rfl
  | _ => rfl

theorem spawnReturned_phase (t : Sup) (m : Model) (ok : Bool) (caller : Spawner) :
    (spawnReturned t m ok caller).1.phase = .outside := Sup.phase_of_free (by simp)

theorem spawnReturned_unrelated (t : Sup) (m : Model) (ok : Bool) (caller : Spawner) :
    ∀ e ∈ (spawnReturned t m ok caller).2, e.unrelated = true := by
  intro e he
  rw [spawnReturned_events t m ok caller e he]
  rfl

theorem UInt8.toNat_succ {r : UInt8} (h : r.toNat < 255) : (r + 1).toNat = r.toNat + 1 := by
  have hone : (1 : UInt8).toNat = 1 := rfl
  rw [UInt8.toNat_add, hone]
  omega

/-- A wanted restart is allowed by the configuration. -/
theorem WorkerState.cap_of_wantRestart {st : WorkerState} {worker : Worker} {now : ℕ}
    (h : st.wantRestart worker now = true) :
    worker.restartOnCrash = true ∧ st.restarts.toNat < worker.maxRestarts.toNat := by
  simp only [WorkerState.wantRestart, Bool.and_eq_true, decide_eq_true_eq] at h
  obtain ⟨⟨⟨hon, hlt⟩, -⟩, -⟩ := h
  refine ⟨hon, ?_⟩
  have hlt' := UInt32.lt_iff_toNat_lt.mp hlt
  simpa using hlt'

/-- The poller's restart gets the lock, and nothing else waits for it on the poller's
behalf. -/
theorem CapInv.counted {cfg : Config} {tr : List Event} {s : Sup} {m : Model}
    (h : CapInv cfg tr s) (hcap : cfg.worker.restartOnCrash = false ∨
      cfg.worker.maxRestarts.toNat ≤ 255) (hro : s.RestartOk)
    (hc : s.holder = some (.count m)) :
    CapInv cfg ((countStep cfg s m).2 ++ tr) (countStep cfg s m).1 := by
  have hphase : s.phase = .deciding := Sup.phase_of_holder hc
  obtain ⟨hon, hlt⟩ := h.pending (.inr hphase)
  have hmax : cfg.worker.maxRestarts.toNat ≤ 255 := by
    rcases hcap with hoff | hle
    · exact absurd (hon.symm.trans hoff) (by simp)
    · exact hle
  have hroom : s.st.restarts.toNat < 255 := by omega
  have hqueue : s.queue.countP Waiter.isRestart = 0 := (hro.owner hc rfl).1
  rcases countStep_cases s m cfg with ⟨-, hfull⟩ | ⟨hnext, ⟨hfull, -⟩ | ⟨-, hev⟩⟩
  · omega
  · omega
  · have hone : ∀ e ∈ [Event.restartCounted], e.unrelated = true := by simp [Event.unrelated]
    obtain ⟨ha, hl, ho⟩ := counts_append tr hone
    have hcounter := h.counter
    have hlaunches := h.launches
    rw [hphase] at hcounter hlaunches
    have hsucc := UInt8.toNat_succ hroom
    rw [hnext, hev]
    refine ⟨?_, ?_, ?_, ?_, fun hmem => h.noOverflow (ho hmem)⟩
    · rw [ha]
      show (s.st.restarts + 1).toNat = attempts tr + 1
      simpa [hsucc] using hcounter
    · rw [ha, hl]
      simpa [Sup.phase, Crit.phase] using hlaunches
    · show (s.st.restarts + 1).toNat ≤ _
      omega
    · rintro (hq | hd)
      · have hsome : 0 < s.queue.countP Waiter.isRestart := hq
        omega
      · exact absurd hd (by simp [Sup.phase, Crit.phase])

section Cases

variable {cfg : Config} {tr : List Event} {s : Sup} {m : Model}

/-- A restart becomes pending by passing the check of the cap. -/
theorem CapInv.wanted (h : CapInv cfg tr s) (hw : s.st.wantRestart cfg.worker s.clock = true) :
    CapInv cfg (.restartWanted :: tr)
      { s with poller := .restarting, queue := s.queue ++ [.maybeRestart m] } := by
  have hone : ∀ e ∈ [Event.restartWanted], e.unrelated = true := by simp [Event.unrelated]
  obtain ⟨ha, hl, ho⟩ := counts_append tr hone
  refine ⟨?_, ?_, h.cap, fun _ => WorkerState.cap_of_wantRestart hw,
    fun hmem => h.noOverflow (ho hmem)⟩
  · exact ha ▸ h.counter
  · exact ha ▸ hl ▸ h.launches

/-- A waiter gets the lock, and a restart stays pending by moving from the queue to it. -/
theorem CapInv.granted {w : Waiter} {ws : List Waiter} (h : CapInv cfg tr s)
    (hh : s.holder = none) (hq : s.queue = w :: ws) :
    CapInv cfg (.acquired w :: tr) ({ s with queue := ws }.goto w.entry) := by
  have hone : ∀ e ∈ [Event.acquired w], e.unrelated = true := by simp [Event.unrelated]
  have hfree : s.phase = .outside := Sup.phase_of_free hh
  by_cases hw : w.isRestart = true
  · have hpend := h.pending (.inl (by simp [hq, hw]))
    obtain ⟨m, rfl⟩ : ∃ m, w = .maybeRestart m := by
      cases w <;> simp_all [Waiter.isRestart]
    obtain ⟨ha, hl, ho⟩ := counts_append tr hone
    have hcounter := h.counter
    have hlaunches := h.launches
    rw [hfree] at hcounter hlaunches
    refine ⟨?_, ?_, h.cap, fun _ => hpend, fun hmem => h.noOverflow (ho hmem)⟩
    · exact ha ▸ hcounter
    · exact ha ▸ hl ▸ hlaunches
  · refine h.moved hone rfl (by simp [hq, hw]) (.inl ?_)
    rw [hfree]
    cases w with
    | maybeRestart m => exact absurd rfl hw
    | _ => rfl

/-- `start_model` resets the counter; it owns the lock, so no restart is past its check. -/
theorem CapInv.cleared (h : CapInv cfg tr s) :
    CapInv cfg (.restartsReset :: tr)
      ({ s with st := s.st.resetRestarts }.goto (.spawn .startModel m .check)) := by
  refine ⟨rfl, Nat.le_refl 0, Nat.zero_le _, ?_, ?_⟩
  · rintro (hq | hd)
    · obtain ⟨hon, hlt⟩ := h.pending (.inl hq)
      exact ⟨hon, by simpa using Nat.zero_lt_of_lt hlt⟩
    · exact absurd hd (by simp [Sup.phase, Crit.phase])
  · intro hmem
    exact h.noOverflow (by simpa using hmem)

/-- `spawn` announces a restart: the attempt is no longer one that is still to come. -/
theorem CapInv.begun (h : CapInv cfg tr s)
    (hc : s.holder = some (.spawn .maybeRestart m .begin)) :
    CapInv cfg (.spawning .maybeRestart m :: tr)
      ({ s with st := s.st.beginSpawn m s.clock }.goto (.spawn .maybeRestart m .exec)) := by
  have hphase : s.phase = .stopping := Sup.phase_of_holder hc
  have hcounter := h.counter
  have hlaunches := h.launches
  have hatt : attempts (.spawning .maybeRestart m :: tr) = attempts tr + 1 :=
    List.countP_cons_of_pos rfl
  have hrel : relaunches (.spawning .maybeRestart m :: tr) = relaunches tr := by
    simp [relaunches, sinceReset, Event.isRelaunch]
  rw [hphase] at hcounter hlaunches
  refine ⟨?_, ?_, h.cap, ?_, by simpa using h.noOverflow⟩
  · show s.st.restarts.toNat = attempts (.spawning .maybeRestart m :: tr) + 0
    rw [hatt]
    exact hcounter
  · show relaunches (.spawning .maybeRestart m :: tr) + 1 ≤ _
    rw [hrel, hatt]
    exact Nat.succ_le_succ hlaunches
  · rintro (hq | hd)
    · exact h.pending (.inl hq)
    · exact absurd hd (by simp [Sup.phase, Crit.phase])

/-- The launch that the last attempt was for. -/
theorem CapInv.relaunched {pid : ℕ} (h : CapInv cfg tr s)
    (hc : s.holder = some (.spawn .maybeRestart m .exec)) :
    CapInv cfg (.launched .maybeRestart s.procs.length m :: tr)
      ({ s with procs := s.procs ++ [newChild cfg m loopback pid] }.goto
        (.spawn .maybeRestart m (.record s.procs.length pid))) := by
  have hphase : s.phase = .launching := Sup.phase_of_holder hc
  have hcounter := h.counter
  have hlaunches := h.launches
  have hatt : attempts (.launched .maybeRestart s.procs.length m :: tr) = attempts tr := by
    simp [attempts, sinceReset, Event.isAttempt]
  have hrel : relaunches (.launched .maybeRestart s.procs.length m :: tr) =
      relaunches tr + 1 := List.countP_cons_of_pos rfl
  rw [hphase] at hcounter hlaunches
  refine ⟨?_, ?_, h.cap, ?_, by simpa using h.noOverflow⟩
  · rw [hatt]
    exact hcounter
  · rw [hatt, hrel]
    exact hlaunches
  · rintro (hq | hd)
    · exact h.pending (.inl hq)
    · exact absurd hd (by simp [Sup.phase, Crit.phase])

end Cases

theorem Step.capInv {cfg : Config} {s s' : Sup} {a : Act} {tr ev : List Event}
    (hs : Step cfg s a ev s') (hcap : cfg.worker.restartOnCrash = false ∨
      cfg.worker.maxRestarts.toNat ≤ 255) (hp : s.PidOk) (hro : s.RestartOk)
    (h : CapInv cfg tr s) : CapInv cfg (ev ++ tr) s' := by
  cases hs with
  | waitSection i c hc hw => exact h.moved (by simp) (by simp) rfl (.inl rfl)
  | call w hw hm =>
    exact h.moved (by simp) rfl (by simp [Waiter.isRestart_of_isHandler hw]) (.inl rfl)
  | dropWaiting n w hn hw =>
    exact h.moved (by simp) rfl (countP_eraseIdx_of_false hn (Waiter.isRestart_of_isHandler hw))
      (.inl rfl)
  | dropHolder c hc hh ha =>
    have hphase : s.phase = .outside := by rw [Sup.phase_of_holder hc, Crit.phase_of_isHandler hh]
    exact h.moved (by simp) rfl rfl (.inr ⟨by simp [hphase], rfl⟩)
  | grant w ws hh hq => exact h.granted hh hq
  | move c c' hc hm =>
    refine h.moved (by simp) rfl rfl (.inl ?_)
    rw [Sup.phase_of_holder hc]
    exact hm.phase
  | running m hc =>
    exact h.moved (by simp [Event.unrelated]) rfl rfl (.inl (Sup.phase_of_holder hc).symm)
  | setStopping caller pid hc =>
    refine h.moved (by simp) rfl rfl (.inl ?_)
    rw [Sup.phase_of_holder hc]
    cases caller <;> rfl
  | term caller pid hc | termFails caller pid hc =>
    refine h.moved (by simp [Event.unrelated]) rfl rfl (.inl ?_)
    rw [Sup.phase_of_holder hc]
    cases caller <;> rfl
  | kill caller pid hc | killFails caller pid hc =>
    refine h.moved (by simp [Event.unrelated]) rfl rfl (.inl ?_)
    rw [Sup.phase_of_holder hc]
    cases caller <;> rfl
  | finish caller hc =>
    refine h.moved ?_ (by simp) (by simp) (.inl ?_)
    · cases caller <;> simp [afterStop, Event.unrelated]
    · rw [Sup.phase_of_holder hc]
      cases caller <;> rfl
  | reset m hc => exact h.cleared
  | spawnReturn caller m ok pc hc hpc =>
    refine h.moved (spawnReturned_unrelated _ _ _ _) (by simp) (by simp)
      (.inr ⟨?_, spawnReturned_phase _ _ _ _⟩)
    rcases hpc with ⟨rfl, hrun⟩ | rfl
    · -- Under the lock no pid is recorded, so `spawn` is never a no-op there.
      have hnone : s.st.pid = none := hp _ hc
      exact absurd hrun (by simp [WorkerState.isRunning, hnone])
    · rw [Sup.phase_of_holder hc]
      cases caller <;> simp [Crit.phase]
  | begin caller m hc =>
    cases caller with
    | maybeRestart => exact h.begun hc
    | startup =>
      exact h.moved (by simp [Event.unrelated]) rfl rfl (.inl (Sup.phase_of_holder hc).symm)
    | startModel =>
      exact h.moved (by simp [Event.unrelated]) rfl rfl (.inl (Sup.phase_of_holder hc).symm)
  | launched caller m pid hc hfree =>
    cases caller with
    | maybeRestart => exact h.relaunched hc
    | startup =>
      exact h.moved (by simp [Event.unrelated]) rfl rfl (.inl (Sup.phase_of_holder hc).symm)
    | startModel =>
      exact h.moved (by simp [Event.unrelated]) rfl rfl (.inl (Sup.phase_of_holder hc).symm)
  | execFailed caller m e hc =>
    refine h.moved (by simp) rfl rfl (.inr ⟨?_, by cases caller <;> rfl⟩)
    rw [Sup.phase_of_holder hc]
    cases caller <;> simp [Crit.phase]
  | failed caller m e hc =>
    refine h.moved (spawnReturned_unrelated _ _ _ _) (by simp) (by simp)
      (.inr ⟨?_, spawnReturned_phase _ _ _ _⟩)
    rw [Sup.phase_of_holder hc]
    cases caller <;> simp [Crit.phase]
  | record caller m child pid hc =>
    refine h.moved (spawnReturned_unrelated _ _ _ _) (by simp) (by simp)
      (.inr ⟨?_, spawnReturned_phase _ _ _ _⟩)
    rw [Sup.phase_of_holder hc]
    cases caller <;> simp [Crit.phase]
  | recovered m hc hcr =>
    refine h.moved (by simp) rfl rfl (.inr ⟨?_, rfl⟩)
    rw [Sup.phase_of_holder hc]
    simp [Crit.phase]
  | count m hc => exact h.counted hcap hro hc
  | probe hpoll => exact h.moved (by simp [Event.unrelated]) rfl rfl (.inl rfl)
  | write ok status startedAt hpoll =>
    exact h.moved (by simp [Event.unrelated]) (by simp) rfl (.inl rfl)
  | want m hpoll hm hw => exact h.wanted hw
  | drained hm hh => exact h.moved (by simp) rfl (by simp [Waiter.isRestart]) (.inl rfl)
  | _ => exact h.moved (by simp) rfl rfl (.inl rfl)

/-- **The invariant** holds in every run under a cap that the counter can reach. -/
theorem capInv_of_run {cfg : Config} {ok : List Event → Sup → Act → Prop} {tr : List Event}
    {s : Sup} (hcap : cfg.worker.restartOnCrash = false ∨ cfg.worker.maxRestarts.toNat ≤ 255)
    (h : (supervisor cfg).Run ok tr s) : CapInv cfg tr s := by
  refine h.invariant (I := CapInv cfg) ?_ ?_
  · rintro s ⟨autostart, rfl⟩
    have hphase : (Sup.init autostart).phase = .outside := by cases autostart <;> rfl
    refine ⟨?_, ?_, Nat.zero_le _, ?_, by simp⟩
    · rw [hphase]
      rfl
    · rw [hphase]
      exact Nat.le_refl 0
    · rintro (hq | hd)
      · exact absurd hq (by simp [Sup.init])
      · exact absurd (hphase.symm.trans hd) (by simp)
  · intro tr s a s' ev hrun _ hs hi
    exact (step_cases hs).capInv hcap (pidOk_of_run hrun) (restartOk_of_run hrun).1 hi

/-! ## Caps that the counter cannot reach -/

/-- What `cmd.spawn()` says when the binary is missing. -/
def spawnError : String := "No such file or directory (os error 2)"

/-- A supervisor whose worker could not be created, with the poller and the lock as given. -/
def crashedAt (poller : Poller) (queue : List Waiter) (holder : Option Crit) (m : Model)
    (now : ℕ) (restarts : UInt8) (lastRestart startedAt : Option ℕ) : Sup where
  clock := now
  st := { WorkerState.new with
    modelId := some m.id
    model := some m
    status := .crashed ("spawn failed: " ++ spawnError)
    startedAt := startedAt
    restarts := restarts
    lastRestart := lastRestart }
  shuttingDown := false
  queue := queue
  holder := holder
  procs := []
  poller := poller
  main := .serving

section Overflow

variable {cfg : Config} {m : Model} {tr : List Event} {now : ℕ} {r : UInt8}
  {lastRestart startedAt : Option ℕ}

/-- Five seconds after the last restart the next one is wanted. -/
theorem wantRestart_crashedAt (m : Model) (startedAt : Option ℕ) (poller : Poller)
    (hon : cfg.worker.restartOnCrash = true)
    (hlt : r.toNat < cfg.worker.maxRestarts.toNat) (hl : ∀ t ∈ lastRestart, t ≤ now) :
    (crashedAt poller [] none m (now + 5001) r lastRestart startedAt).st.wantRestart cfg.worker
      (now + 5001) = true := by
  have hlt' : r.toUInt32 < cfg.worker.maxRestarts := by
    rw [UInt32.lt_iff_toNat_lt]
    simpa using hlt
  cases lastRestart with
  | none => simp [crashedAt, WorkerState.wantRestart, hon, hlt']
  | some t =>
    have ht : t ≤ now := hl t rfl
    have helapsed : 5000 < now + 5001 - t := by omega
    simp [crashedAt, WorkerState.wantRestart, WorkerState.elapsedMoreThan, hon, hlt', helapsed]

/-- The section of `maybe_restart` that finds a restart wanted. -/
theorem step_want {s : Sup} (hp : s.poller = .want) (hm : s.st.model = some m)
    (hw : s.st.wantRestart cfg.worker s.clock = true) :
    (supervisor cfg).step s .poll =
      some ({ s with poller := .restarting, queue := s.queue ++ [.maybeRestart m] },
        [.restartWanted]) := by
  simp [supervisor, step, pollerStep, hp, hm, hw]

/-- The increment of a counter with room. -/
theorem step_count {s : Sup} (hc : s.holder = some (.count m))
    (hr : s.st.restarts.toNat < 255) :
    (supervisor cfg).step s .run = some ({ s with st := s.st.countRestart s.clock }.goto
      (.stopInner (.maybeRestart m) .readPid), [.restartCounted]) := by
  have hne : s.st.restarts.toNat ≠ 255 := by omega
  simp [supervisor, step, holderStep, hc, countStep, hne]

/-- The increment of a full counter. -/
theorem step_count_full (cfg : Config) {s : Sup} (hc : s.holder = some (.count m))
    (hr : s.st.restarts.toNat = 255) :
    ∃ s' ev, (supervisor cfg).step s .run = some (s', ev) ∧ .restartsOverflowed ∈ ev := by
  refine ⟨(countStep cfg s m).1, (countStep cfg s m).2, ?_, ?_⟩
  · simp [supervisor, step, holderStep, hc]
  · cases ho : cfg.overflowChecks <;> simp [countStep, hr, ho]

/-- `spawn` finds no pid. -/
theorem step_check {s : Sup} {caller : Spawner}
    (hc : s.holder = some (.spawn caller m .check)) (hp : s.st.pid = none) :
    (supervisor cfg).step s .run = some (s.goto (.spawn caller m .begin), []) := by
  simp [supervisor, step, holderStep, spawnStep, hc, WorkerState.isRunning, hp]

/-- From rest, the restart gets to the increment. -/
theorem run_counting (hon : cfg.worker.restartOnCrash = true)
    (hlt : r.toNat < cfg.worker.maxRestarts.toNat) (hl : ∀ t ∈ lastRestart, t ≤ now)
    (h : (supervisor cfg).Run Anything tr
      (crashedAt .idle [] none m now r lastRestart startedAt)) :
    ∃ tr', (supervisor cfg).Run Anything tr'
      (crashedAt .restarting [] (some (.count m)) m (now + 5001) r lastRestart startedAt) := by
  have hwant := h.perform [.tick 5001, .poll, .poll, .poll]
    (crashedAt .want [] none m (now + 5001) r lastRestart startedAt) (by rfl)
  have hw := wantRestart_crashedAt m startedAt .want hon hlt hl
  have hstep : (supervisor cfg).step
      (crashedAt .want [] none m (now + 5001) r lastRestart startedAt) .poll = some
      (crashedAt .restarting [.maybeRestart m] none m (now + 5001) r lastRestart startedAt,
        [.restartWanted]) :=
    step_want rfl rfl hw
  exact ⟨_, (hwant.next trivial hstep).perform [.grant, .run] _ (by rfl)⟩

/-- The increment, and a creation that fails. -/
theorem run_restart_fails (hr : r.toNat < 255)
    (h : (supervisor cfg).Run Anything tr
      (crashedAt .restarting [] (some (.count m)) m now r lastRestart startedAt)) :
    ∃ tr', (supervisor cfg).Run Anything tr'
      (crashedAt .idle [] none m now (r + 1) (some now) (some now)) := by
  have hcount : (supervisor cfg).step
      (crashedAt .restarting [] (some (.count m)) m now r lastRestart startedAt) .run = some
      (crashedAt .restarting [] (some (.stopInner (.maybeRestart m) .readPid)) m now (r + 1)
        (some now) startedAt, [.restartCounted]) :=
    step_count (s := crashedAt .restarting [] (some (.count m)) m now r lastRestart startedAt)
      rfl hr
  have hstopped := (h.next trivial hcount).perform [.run, .run]
    { crashedAt .restarting [] (some (.spawn .maybeRestart m .check)) m now (r + 1) (some now)
        startedAt with
      st := (crashedAt .restarting [] none m now (r + 1) (some now) startedAt).st.markStopped }
    (by rfl)
  have hbegin := hstopped.next trivial (step_check rfl rfl)
  exact ⟨_, hbegin.perform [.run, .exec (.spawnFailed spawnError), .run, .poll] _ (by rfl)⟩

/-- Every attempt may fail: any number of them up to 255 can be counted. -/
theorem run_attempts (hon : cfg.worker.restartOnCrash = true)
    (hcap : 255 < cfg.worker.maxRestarts.toNat) (m : Model) :
    ∀ k ≤ 255, ∃ tr now r lastRestart startedAt,
      (supervisor cfg).Run Anything tr
          (crashedAt .idle [] none m now r lastRestart startedAt) ∧
        r.toNat = k ∧ ∀ t ∈ lastRestart, t ≤ now := by
  intro k
  induction k with
  | zero =>
    intro _
    have hstart : (supervisor cfg).init (Sup.init none) := ⟨none, rfl⟩
    have hrun := (Run.start hstart).perform
      (startUntilExec m ++ [.exec (.spawnFailed spawnError), .run])
      (crashedAt .idle [] none m 0 0 none (some 0)) (by rfl)
    exact ⟨_, 0, 0, none, some 0, hrun, rfl, by simp⟩
  | succ k ih =>
    intro hk
    obtain ⟨tr, now, r, lastRestart, startedAt, hrun, hr, hl⟩ := ih (by omega)
    obtain ⟨tr₁, hcounting⟩ := run_counting hon (by omega) hl hrun
    obtain ⟨tr₂, hfailed⟩ := run_restart_fails (by omega) hcounting
    refine ⟨tr₂, _, _, _, _, hfailed, ?_, by simp⟩
    rw [UInt8.toNat_succ (by omega), hr]

/-- **Overflow**: with automatic restarts and a cap over 255, some run overflows the
counter. -/
theorem exists_overflow (cfg : Config) (hon : cfg.worker.restartOnCrash = true)
    (hcap : 255 < cfg.worker.maxRestarts.toNat) :
    ∃ tr s, (supervisor cfg).Run Anything tr s ∧ .restartsOverflowed ∈ tr := by
  obtain ⟨tr, now, r, lastRestart, startedAt, hrun, hr, hl⟩ :=
    run_attempts hon hcap modelA 255 (Nat.le_refl _)
  obtain ⟨tr₁, hcounting⟩ := run_counting hon (by omega) hl hrun
  obtain ⟨s', ev, hstep, hover⟩ := step_count_full cfg
    (s := crashedAt .restarting [] (some (.count modelA)) modelA (now + 5001) r lastRestart
      startedAt) rfl hr
  exact ⟨_, s', hcounting.next (a := .run) trivial hstep, List.mem_append_left _ hover⟩

end Overflow

/-! ## Results -/

/-- **The cap on automatic restarts** holds in every run exactly when they are off, or the
cap fits the `u8` counter. -/
theorem restart_cap_iff (cfg : Config) :
    (∀ tr s, (supervisor cfg).Run Anything tr s → CapHolds cfg tr s) ↔
      (cfg.worker.restartOnCrash = false ∨ cfg.worker.maxRestarts.toNat ≤ 255) := by
  constructor
  · intro hall
    by_contra hcap
    push Not at hcap
    obtain ⟨hon, hlarge⟩ := hcap
    obtain ⟨tr, s, hrun, hover⟩ := exists_overflow cfg (by simpa using hon) hlarge
    exact (hall tr s hrun).noOverflow hover
  · intro hcap tr s hrun
    have hinv := capInv_of_run hcap hrun
    refine ⟨?_, hinv.counter, hinv.noOverflow⟩
    have hlaunches := hinv.launches
    have hcounter := hinv.counter
    have hmax := hinv.cap
    omega

/-- The sample daemon with a cap of 300. -/
def generousConfig : Config :=
  { sampleConfig with worker := { sampleConfig.worker with maxRestarts := 300 } }

/-- Its counter overflows at the 256th attempt. -/
theorem restart_cap_overflows :
    ¬ ∀ tr s, (supervisor generousConfig).Run Anything tr s → CapHolds generousConfig tr s := by
  intro hall
  obtain ⟨tr, s, hrun, hover⟩ := exists_overflow generousConfig rfl (by decide)
  exact (hall tr s hrun).noOverflow hover

end LlmCtl
