/-
# What one step of the supervisor can do

`step` is a program: to use it in a proof one has to run it.  `Step` lists its
outcomes instead, one constructor for each way in which a step changes the shared
data, and `step_cases` says that there are no others.  The moves that change
nothing but a program point are gathered in `CritMove` (the owner of `lifecycle`) and
`PollMove` (the poller).  Every invariant of the supervisor is proved by cases on
`Step`.
-/
import LlmCtl.Supervisor

namespace LlmCtl

/-- A move of the owner of `lifecycle` that changes only its program point. -/
inductive CritMove (s : Sup) : Crit → Crit → Prop
  | notRunning (m : Model) (h : s.st.isRunning m = false) :
      CritMove s (.startCheck m) (.startPid m)
  | stopFirst (m : Model) (h : s.st.pid.isSome = true) :
      CritMove s (.startPid m) (.stopInner (.startModel m) .readPid)
  | noWorker (m : Model) (h : s.st.pid = none) :
      CritMove s (.startPid m) (.startReset m)
  | readPid (caller : StopCaller) (pid : ℕ) (h : s.st.pid = some pid) :
      CritMove s (.stopInner caller .readPid) (.stopInner caller (.setStopping pid))
  | noPid (caller : StopCaller) (h : s.st.pid = none) :
      CritMove s (.stopInner caller .readPid) (.stopInner caller .finish)
  | graceOver (caller : StopCaller) (pid left : ℕ) :
      CritMove s (.stopInner caller (.grace pid left)) (.stopInner caller (.killIfAlive pid))
  | sleep (caller : StopCaller) (pid left : ℕ) :
      CritMove s (.stopInner caller (.grace pid (left + 1)))
        (.stopInner caller (.sleep pid left))
  | slept (caller : StopCaller) (pid left : ℕ) :
      CritMove s (.stopInner caller (.sleep pid left)) (.stopInner caller (.grace pid left))
  | gone (caller : StopCaller) (pid : ℕ) (h : pidAlive s.procs pid = false) :
      CritMove s (.stopInner caller (.killIfAlive pid)) (.stopInner caller .finish)
  | begin (caller : Spawner) (m : Model) (h : s.st.isRunning m = false) :
      CritMove s (.spawn caller m .check) (.spawn caller m .begin)
  | recheck (m : Model) (h : s.st.status.isCrashed = true) :
      CritMove s (.recheck m) (.count m)

/-- A move of the poller that changes only its program point. -/
inductive PollMove (s : Sup) : Poller → Poller → Prop
  | tick : PollMove s .idle .hasPid
  | pid (h : s.st.pid.isSome = true) : PollMove s .hasPid .probe
  | noPid (h : s.st.pid = none) : PollMove s .hasPid .flag
  | answered (ok : Bool) : PollMove s .probing (.snapshot ok)
  | snapshot (ok : Bool) :
      PollMove s (.snapshot ok) (.write ok s.st.status s.st.startedAt)
  | suppressed (h : s.shuttingDown = true) : PollMove s .flag .slotsPid
  | goOn (h : s.shuttingDown = false) : PollMove s .flag .want
  | notWanted : PollMove s .want .slotsPid
  | slots : PollMove s .slotsPid .slots
  | noSlots : PollMove s .slotsPid .idle
  | slotsAnswer (slots metrics : Option Json) :
      PollMove s .slots (.slotsWrite slots metrics)

/-- **The outcomes of a step**: action, events (newest first), next state. -/
inductive Step (cfg : Config) (s : Sup) : Act → List Event → Sup → Prop
  | tick (ms : ℕ) : Step cfg s (.tick ms) [] { s with clock := s.clock + ms }
  | exit (i : ℕ) (c : Proc) (hc : s.procs[i]? = some c) (hrun : c.status = .running) :
      Step cfg s (.exit i) [] { s with procs := s.procs.modify i Proc.die }
  | appear (pid : ℕ) (cmdline : List String) (h : pidFree s.procs pid = true) :
      Step cfg s (.appear pid cmdline) [] { s with procs := s.procs ++ [stranger pid cmdline] }
  | reap (i : ℕ) (c : Proc) (hc : s.procs[i]? = some c) (hw : c.wait = .waiting)
      (hz : c.status = .zombie) :
      Step cfg s (.reap i) [] { s with procs := s.procs.modify i Proc.reap }
  | waitSection (i : ℕ) (c : Proc) (hc : s.procs[i]? = some c) (hw : c.wait = .exited) :
      Step cfg s (.waitSection i) []
        { s with st := s.st.childExited c.pid, procs := s.procs.modify i Proc.waitDone }
  | call {a : Act} (w : Waiter) (hw : w.isHandler = true) (h : s.main.accepts = true) :
      Step cfg s a [] { s with queue := s.queue ++ [w] }
  | dropWaiting (n : ℕ) (w : Waiter) (hn : s.queue[n]? = some w) (hw : w.isHandler = true) :
      Step cfg s (.dropWaiting n) [] { s with queue := s.queue.eraseIdx n }
  | dropHolder (c : Crit) (hc : s.holder = some c) (hh : c.isHandler = true)
      (ha : c.atAwait = true) :
      Step cfg s .dropHolder [] s.release
  | grant (w : Waiter) (ws : List Waiter) (hh : s.holder = none) (hq : s.queue = w :: ws) :
      Step cfg s .grant [.acquired w] ({ s with queue := ws }.goto w.entry)
  | move (c c' : Crit) (hc : s.holder = some c) (hm : CritMove s c c') :
      Step cfg s .run [] (s.goto c')
  | running (m : Model) (hc : s.holder = some (.startCheck m)) :
      Step cfg s .run [.startReturned m true] s.release
  | setStopping (caller : StopCaller) (pid : ℕ)
      (hc : s.holder = some (.stopInner caller (.setStopping pid))) :
      Step cfg s .run []
        ({ s with st := s.st.markStopping }.goto (.stopInner caller (.term pid)))
  | term (caller : StopCaller) (pid : ℕ)
      (hc : s.holder = some (.stopInner caller (.term pid))) :
      Step cfg s .run [.signalled .term pid] (s.goto (.stopInner caller (.grace pid 10)))
  | kill (caller : StopCaller) (pid : ℕ)
      (hc : s.holder = some (.stopInner caller (.killIfAlive pid))) :
      Step cfg s .run [.signalled .kill pid]
        ({ s with procs := sigkill s.procs pid }.goto (.stopInner caller .finish))
  | termFails (caller : StopCaller) (pid : ℕ)
      (hc : s.holder = some (.stopInner caller (.term pid))) :
      Step cfg s .killFails [] (s.goto (.stopInner caller (.grace pid 10)))
  | killFails (caller : StopCaller) (pid : ℕ)
      (hc : s.holder = some (.stopInner caller (.killIfAlive pid)))
      (h : pidAlive s.procs pid = true) :
      Step cfg s .killFails [] (s.goto (.stopInner caller .finish))
  | finish (caller : StopCaller) (hc : s.holder = some (.stopInner caller .finish)) :
      Step cfg s .run (afterStop { s with st := s.st.markStopped } caller).2
        (afterStop { s with st := s.st.markStopped } caller).1
  | reset (m : Model) (hc : s.holder = some (.startReset m)) :
      Step cfg s .run [.restartsReset]
        ({ s with st := s.st.resetRestarts }.goto (.spawn .startModel m .check))
  | spawnReturn {a : Act} (caller : Spawner) (m : Model) (ok : Bool) (pc : SpawnPc)
      (hc : s.holder = some (.spawn caller m pc))
      (hpc : (pc = .check ∧ s.st.isRunning m = true) ∨ pc = .exec) :
      Step cfg s a (spawnReturned s m ok caller).2 (spawnReturned s m ok caller).1
  | begin (caller : Spawner) (m : Model) (hc : s.holder = some (.spawn caller m .begin)) :
      Step cfg s .run [.spawning caller m]
        ({ s with st := s.st.beginSpawn m s.clock }.goto (.spawn caller m .exec))
  | launched (caller : Spawner) (m : Model) (pid : ℕ)
      (hc : s.holder = some (.spawn caller m .exec)) (hp : pidFree s.procs pid = true) :
      Step cfg s (.exec (.spawned pid)) [.launched caller s.procs.length m]
        ({ s with procs := s.procs ++ [newChild cfg m loopback pid] }.goto
          (.spawn caller m (.record s.procs.length pid)))
  | execFailed (caller : Spawner) (m : Model) (e : String)
      (hc : s.holder = some (.spawn caller m .exec)) :
      Step cfg s (.exec (.spawnFailed e)) [] (s.goto (.spawn caller m (.failed e)))
  | failed (caller : Spawner) (m : Model) (e : String)
      (hc : s.holder = some (.spawn caller m (.failed e))) :
      Step cfg s .run (spawnReturned { s with st := s.st.spawnFailed e } m false caller).2
        (spawnReturned { s with st := s.st.spawnFailed e } m false caller).1
  | record (caller : Spawner) (m : Model) (child pid : ℕ)
      (hc : s.holder = some (.spawn caller m (.record child pid))) :
      Step cfg s .run
        (spawnReturned
          { s with st := s.st.recordPid pid, procs := s.procs.modify child Proc.startWait }
          m true caller).2
        (spawnReturned
          { s with st := s.st.recordPid pid, procs := s.procs.modify child Proc.startWait }
          m true caller).1
  | recovered (m : Model) (hc : s.holder = some (.recheck m))
      (h : s.st.status.isCrashed = false) :
      Step cfg s .run [] { s.release with poller := .slotsPid }
  | count (m : Model) (hc : s.holder = some (.count m)) :
      Step cfg s .run (countStep cfg s m).2 (countStep cfg s m).1
  | pollMove {a : Act} (p p' : Poller) (hp : s.poller = p) (hm : PollMove s p p') :
      Step cfg s a [] { s with poller := p' }
  | probe (hp : s.poller = .probe) :
      Step cfg s .poll [.probeSent s.worker] { s with poller := .probing }
  | write (ok : Bool) (status : WorkerStatus) (startedAt : Option ℕ)
      (hp : s.poller = .write ok status startedAt) :
      Step cfg s .poll
        [.polled ok s.st.status (s.st.pollResult ok status startedAt s.clock).status s.worker]
        { s with st := s.st.pollResult ok status startedAt s.clock, poller := .flag }
  | want (m : Model) (hp : s.poller = .want) (hm : s.st.model = some m)
      (hw : s.st.wantRestart cfg.worker s.clock = true) :
      Step cfg s .poll [.restartWanted]
        { s with poller := .restarting, queue := s.queue ++ [.maybeRestart m] }
  | slotsWrite (slots metrics : Option Json) (hp : s.poller = .slotsWrite slots metrics) :
      Step cfg s .poll [] { s with st := s.st.slotsPolled slots metrics, poller := .idle }
  | markShuttingDown (h : s.main = .serving) :
      Step cfg s .markShuttingDown [] { s with main := .marked, shuttingDown := true }
  | drained (h : s.main = .marked) (hh : s.handlerActive = false) :
      Step cfg s .drained [] { s with main := .stopping, queue := s.queue ++ [.shutdown] }
  | markRequest : Step cfg s .markRequest [] { s with st := s.st.markRequest s.clock }
  | stashTurn (turn : Json) :
      Step cfg s (.stashTurn turn) [] { s with st := s.st.stashTurn turn }

/-! ## Every step is one of these -/

/-- A step whose result is computed as a pair. -/
theorem Step.of_pair {cfg : Config} {s s' : Sup} {a : Act} {ev : List Event}
    {p : Sup × List Event} (hs : Step cfg s a p.2 p.1) (h : some p = some (s', ev)) :
    Step cfg s a ev s' := by
  obtain rfl := Option.some.inj h
  exact hs

theorem stopInnerStep_cases {cfg : Config} {s : Sup} {caller : StopCaller} {pc : StopPc}
    (hc : s.holder = some (.stopInner caller pc)) :
    Step cfg s .run (stopInnerStep s caller pc).2 (stopInnerStep s caller pc).1 := by
  cases pc with
  | readPid =>
    simp only [stopInnerStep]
    split
    · next pid hpid => exact .move _ _ hc (.readPid caller pid hpid)
    · next hpid => exact .move _ _ hc (.noPid caller hpid)
  | setStopping pid => exact .setStopping caller pid hc
  | term pid => exact .term caller pid hc
  | grace pid left =>
    cases left with
    | zero => exact .move _ _ hc (.graceOver caller pid 0)
    | succ n =>
      simp only [stopInnerStep]
      split
      · exact .move _ _ hc (.sleep caller pid n)
      · exact .move _ _ hc (.graceOver caller pid (n + 1))
  | sleep pid left => exact .move _ _ hc (.slept caller pid left)
  | killIfAlive pid =>
    simp only [stopInnerStep]
    split
    · exact .kill caller pid hc
    · next h => exact .move _ _ hc (.gone caller pid (by simpa using h))
  | finish => exact .finish caller hc

theorem killFailsStep_cases {cfg : Config} {s s' : Sup} {ev : List Event} {caller : StopCaller}
    {pc : StopPc} (hc : s.holder = some (.stopInner caller pc))
    (h : killFailsStep s caller pc = some (s', ev)) : Step cfg s .killFails ev s' := by
  cases pc with
  | term pid =>
    cases h
    exact .termFails caller pid hc
  | killIfAlive pid =>
    simp only [killFailsStep] at h
    split at h
    · next halive =>
      cases h
      exact .killFails caller pid hc halive
    · cases h
  | readPid | setStopping | grace | sleep | finish => exact absurd h (by simp [killFailsStep])

/-- An undelivered signal says nothing. -/
theorem killFailsStep_events {s s' : Sup} {ev : List Event} {caller : StopCaller} {pc : StopPc}
    (h : killFailsStep s caller pc = some (s', ev)) : ev = [] := by
  cases pc with
  | term pid =>
    cases h
    rfl
  | killIfAlive pid =>
    simp only [killFailsStep] at h
    split at h
    · cases h
      rfl
    · cases h
  | readPid | setStopping | grace | sleep | finish => exact absurd h (by simp [killFailsStep])

theorem spawnStep_cases {cfg : Config} {s s' : Sup} {ev : List Event} {caller : Spawner}
    {m : Model} {pc : SpawnPc} (hc : s.holder = some (.spawn caller m pc))
    (h : spawnStep s caller m pc = some (s', ev)) : Step cfg s .run ev s' := by
  cases pc with
  | check =>
    simp only [spawnStep] at h
    split at h
    · next hr =>
      exact .of_pair (.spawnReturn caller m true .check hc (.inl ⟨rfl, hr⟩)) h
    · next hr =>
      cases h
      exact .move _ _ hc (.begin caller m (by simpa using hr))
  | begin =>
    cases h
    exact .begin caller m hc
  | exec => simp [spawnStep] at h
  | failed e =>
    exact .of_pair (.failed caller m e hc) h
  | record child pid =>
    exact .of_pair (.record caller m child pid hc) h

theorem execStep_cases {cfg : Config} {s s' : Sup} {ev : List Event} {caller : Spawner}
    {m : Model} {o : ExecOutcome} (hc : s.holder = some (.spawn caller m .exec))
    (h : execStep cfg s caller m o = some (s', ev)) : Step cfg s (.exec o) ev s' := by
  cases o with
  | logFailed e =>
    exact .of_pair (.spawnReturn caller m false .exec hc (.inr rfl)) h
  | spawnFailed e =>
    cases h
    exact .execFailed caller m e hc
  | spawned pid =>
    simp only [execStep] at h
    split at h
    · next hp =>
      cases h
      exact .launched caller m pid hc hp
    · exact absurd h (by simp)

theorem holderStep_cases {cfg : Config} {s s' : Sup} {ev : List Event} {c : Crit}
    (hc : s.holder = some c) (h : holderStep cfg s c = some (s', ev)) :
    Step cfg s .run ev s' := by
  cases c with
  | startCheck m =>
    simp only [holderStep] at h
    split at h
    · cases h
      exact .running m hc
    · next hr =>
      cases h
      exact .move _ _ hc (.notRunning m (by simpa using hr))
  | startPid m =>
    simp only [holderStep] at h
    split at h
    · next hp =>
      cases h
      exact .move _ _ hc (.stopFirst m hp)
    · next hp =>
      cases h
      exact .move _ _ hc (.noWorker m (by simpa using hp))
  | startReset m =>
    cases h
    exact .reset m hc
  | recheck m =>
    simp only [holderStep] at h
    split at h
    · next hcr =>
      cases h
      exact .move _ _ hc (.recheck m hcr)
    · next hcr =>
      cases h
      exact .recovered m hc (by simpa using hcr)
  | count m =>
    exact .of_pair (.count m hc) h
  | stopInner caller pc =>
    exact .of_pair (stopInnerStep_cases hc) h
  | spawn caller m pc => exact spawnStep_cases hc h

theorem pollerStep_cases {cfg : Config} {s s' : Sup} {ev : List Event}
    (h : pollerStep cfg s = some (s', ev)) : Step cfg s .poll ev s' := by
  cases hp : s.poller with
  | idle =>
    simp only [pollerStep, hp] at h
    cases h
    exact .pollMove _ _ hp .tick
  | hasPid =>
    simp only [pollerStep, hp] at h
    cases h
    cases hpid : s.st.pid with
    | none => exact .pollMove _ _ hp (.noPid hpid)
    | some pid => exact .pollMove _ _ hp (.pid (by simp [hpid]))
  | probe =>
    simp only [pollerStep, hp] at h
    cases h
    exact .probe hp
  | snapshot ok =>
    simp only [pollerStep, hp] at h
    cases h
    exact .pollMove _ _ hp (.snapshot ok)
  | write ok status startedAt =>
    simp only [pollerStep, hp] at h
    cases h
    exact .write ok status startedAt hp
  | flag =>
    simp only [pollerStep, hp] at h
    split at h
    · next hs =>
      cases h
      exact .pollMove _ _ hp (.suppressed hs)
    · next hs =>
      cases h
      exact .pollMove _ _ hp (.goOn (by simpa using hs))
  | want =>
    simp only [pollerStep, hp] at h
    split at h
    · next m hm =>
      split at h
      · next hw =>
        cases h
        exact .want m hp hm hw
      · cases h
        exact .pollMove _ _ hp .notWanted
    · cases h
      exact .pollMove _ _ hp .notWanted
  | slotsPid =>
    simp only [pollerStep, hp] at h
    cases h
    cases s.st.pid with
    | none => exact .pollMove _ _ hp .noSlots
    | some pid => exact .pollMove _ _ hp .slots
  | slotsWrite slots metrics =>
    simp only [pollerStep, hp] at h
    cases h
    exact .slotsWrite slots metrics hp
  | off | probing | restarting | slots | panicked => simp [pollerStep, hp] at h

/-- **Inversion of a step.** -/
theorem step_cases {cfg : Config} {s s' : Sup} {a : Act} {ev : List Event}
    (h : step cfg s a = some (s', ev)) : Step cfg s a ev s' := by
  cases a with
  | tick ms =>
    cases h
    exact .tick ms
  | exit i =>
    simp only [step] at h
    split at h
    · next c hc =>
      split at h
      · next hr =>
        cases h
        exact .exit i c hc hr
      · cases h
    · cases h
  | appear pid cmdline =>
    simp only [step] at h
    split at h
    · next hp =>
      cases h
      exact .appear pid cmdline hp
    · cases h
  | reap i =>
    simp only [step] at h
    split at h
    · next c hc =>
      split at h
      · next hw =>
        cases h
        exact .reap i c hc hw.1 hw.2
      · cases h
    · cases h
  | waitSection i =>
    simp only [step] at h
    split at h
    · next c hc =>
      split at h
      · next hw =>
        cases h
        exact .waitSection i c hc hw
      · cases h
    · cases h
  | callStart m =>
    simp only [step] at h
    split at h
    · next hm =>
      cases h
      exact .call _ rfl hm
    · cases h
  | callStop =>
    simp only [step] at h
    split at h
    · next hm =>
      cases h
      exact .call _ rfl hm
    · cases h
  | dropWaiting n =>
    simp only [step] at h
    split at h
    · next w hn =>
      split at h
      · next hw =>
        cases h
        exact .dropWaiting n w hn hw
      · cases h
    · cases h
  | dropHolder =>
    simp only [step] at h
    split at h
    · next c hc =>
      split at h
      · next hh =>
        cases h
        simp only [Bool.and_eq_true] at hh
        exact .dropHolder c hc hh.1 hh.2
      · cases h
    · cases h
  | grant =>
    simp only [step] at h
    split at h
    · next w ws hh hq =>
      cases h
      exact .grant w ws hh hq
    · cases h
  | run =>
    simp only [step] at h
    split at h
    · next c hc => exact holderStep_cases hc h
    · cases h
  | killFails =>
    simp only [step] at h
    split at h
    · next caller pc hc => exact killFailsStep_cases hc h
    · cases h
  | exec o =>
    simp only [step] at h
    split at h
    · next caller m hc => exact execStep_cases hc h
    · cases h
  | poll => exact pollerStep_cases h
  | probeAnswer answeredBy =>
    simp only [step] at h
    split at h
    · next hp =>
      split at h
      · cases h
        exact .pollMove _ _ hp (.answered false)
      · split at h
        · cases h
          exact .pollMove _ _ hp (.answered true)
        · cases h
    · cases h
  | slotsAnswer slots metrics =>
    simp only [step] at h
    split at h
    · next hp =>
      cases h
      exact .pollMove _ _ hp (.slotsAnswer slots metrics)
    · cases h
  | markShuttingDown =>
    simp only [step] at h
    split at h
    · next hm =>
      cases h
      exact .markShuttingDown hm
    · cases h
  | drained =>
    simp only [step] at h
    split at h
    · next hm =>
      cases h
      exact .drained hm.1 hm.2
    · cases h
  | markRequest =>
    cases h
    exact .markRequest
  | stashTurn turn =>
    cases h
    exact .stashTurn turn

/-! ## Where the events come from -/

/-- Is this event the announcement of a start? -/
def Event.isSpawning : Event → Bool
  | .spawning _ _ => true
  | _ => false

section Events

variable {cfg : Config} {s s' : Sup} {a : Act} {ev : List Event}

/-- The events of a return from `spawn`. -/
theorem spawnReturned_events (t : Sup) (m : Model) (ok : Bool) (caller : Spawner) :
    ∀ e ∈ (spawnReturned t m ok caller).2, e = .startReturned m ok := by
  cases caller <;> cases ok <;> simp [spawnReturned]

/-- The events of an attempt. -/
theorem countStep_events (m : Model) :
    ∀ e ∈ (countStep cfg s m).2, e = .restartCounted ∨ e = .restartsOverflowed := by
  rcases countStep_cases s m cfg with ⟨heq, -⟩ | ⟨-, ⟨-, heq⟩ | ⟨-, heq⟩⟩ <;> simp [heq]

/-- A launch is the only event of its step, and the owner is at the call of `cmd.spawn()`. -/
theorem Step.of_launched (hs : Step cfg s a ev s') {caller : Spawner} {i : ℕ} {m : Model}
    (h : .launched caller i m ∈ ev) :
    ev = [.launched caller i m] ∧ i = s.procs.length ∧
      s.holder = some (.spawn caller m .exec) := by
  cases hs with
  | launched caller' m' pid hc hp =>
    obtain ⟨rfl, rfl, rfl⟩ : caller = caller' ∧ i = s.procs.length ∧ m = m' := by simpa using h
    exact ⟨rfl, rfl, hc⟩
  | finish caller' hc => cases caller' <;> simp [afterStop] at h
  | spawnReturn | failed | record => exact absurd (spawnReturned_events _ _ _ _ _ h) (by simp)
  | count m' hc => exact absurd (countStep_events m' _ h) (by simp)
  | _ => simp at h

/-- A call of `stop` returns in the last section of `stop_inner`. -/
theorem Step.of_stopReturned (hs : Step cfg s a ev s') {final : Bool}
    (h : .stopReturned final ∈ ev) :
    ∃ caller, (caller = .stop ∧ final = false ∨ caller = .shutdown ∧ final = true) ∧
      s.holder = some (.stopInner caller .finish) ∧
      s' = (afterStop { s with st := s.st.markStopped } caller).1 := by
  cases hs with
  | finish caller hc =>
    cases caller with
    | stop => exact ⟨.stop, .inl ⟨rfl, by simpa [afterStop] using h⟩, hc, rfl⟩
    | shutdown => exact ⟨.shutdown, .inr ⟨rfl, by simpa [afterStop] using h⟩, hc, rfl⟩
    | _ => simp [afterStop] at h
  | spawnReturn | failed | record => exact absurd (spawnReturned_events _ _ _ _ _ h) (by simp)
  | count m' hc => exact absurd (countStep_events m' _ h) (by simp)
  | _ => simp at h

/-- The lock is granted to a waiter. -/
theorem Step.of_acquired (hs : Step cfg s a ev s') {w : Waiter} (h : .acquired w ∈ ev) :
    w ∈ s.queue := by
  cases hs with
  | grant w' ws hh hq =>
    obtain rfl : w = w' := by simpa using h
    simp [hq]
  | finish caller hc => cases caller <;> simp [afterStop] at h
  | spawnReturn | failed | record => exact absurd (spawnReturned_events _ _ _ _ _ h) (by simp)
  | count m' hc => exact absurd (countStep_events m' _ h) (by simp)
  | _ => simp at h

/-- The writing section of `poll` and its event. -/
theorem Step.of_polled (hs : Step cfg s a ev s') {ok : Bool} {old new : WorkerStatus}
    {w : Option ℕ} (h : .polled ok old new w ∈ ev) :
    ∃ status startedAt, a = .poll ∧ s.poller = .write ok status startedAt ∧
      old = s.st.status ∧ new = (s.st.pollResult ok status startedAt s.clock).status ∧
      w = s.worker ∧ ev = [.polled ok old new w] := by
  cases hs with
  | write ok' status startedAt hp =>
    obtain ⟨rfl, rfl, rfl, rfl⟩ : ok = ok' ∧ old = s.st.status ∧
        new = (s.st.pollResult ok' status startedAt s.clock).status ∧ w = s.worker := by
      simpa using h
    exact ⟨status, startedAt, rfl, hp, rfl, rfl, rfl, rfl⟩
  | finish caller hc => cases caller <;> simp [afterStop] at h
  | spawnReturn | failed | record => exact absurd (spawnReturned_events _ _ _ _ _ h) (by simp)
  | count m' hc => exact absurd (countStep_events m' _ h) (by simp)
  | _ => simp at h

/-- A return from `spawn` announces no start. -/
theorem spawnReturned_isSpawning (t : Sup) (m : Model) (ok : Bool) (caller : Spawner) :
    ∀ e ∈ (spawnReturned t m ok caller).2, e.isSpawning = false := by
  intro e he
  rw [spawnReturned_events t m ok caller e he]
  rfl

theorem countStep_isSpawning (m : Model) :
    ∀ e ∈ (countStep cfg s m).2, e.isSpawning = false := by
  intro e he
  rcases countStep_events m e he with rfl | rfl <;> rfl

/-- Only the announcement of a start writes `model_id`, and every announcement does. -/
theorem Step.modelId (hs : Step cfg s a ev s') :
    (s'.st.modelId = s.st.modelId ∧ ∀ e ∈ ev, e.isSpawning = false) ∨
      ∃ caller m, s'.st.modelId = some m.id ∧ ev = [.spawning caller m] := by
  cases hs with
  | begin caller m hc => exact .inr ⟨caller, m, rfl, rfl⟩
  | waitSection i c hc hw => exact .inl ⟨by simp, by simp⟩
  | finish caller hc =>
    refine .inl ⟨by simp, ?_⟩
    cases caller <;> simp [afterStop, Event.isSpawning]
  | spawnReturn caller m ok pc hc hpc =>
    exact .inl ⟨by simp, spawnReturned_isSpawning _ _ _ _⟩
  | failed caller m e hc => exact .inl ⟨by simp, spawnReturned_isSpawning _ _ _ _⟩
  | record caller m child pid hc => exact .inl ⟨by simp, spawnReturned_isSpawning _ _ _ _⟩
  | count m hc => exact .inl ⟨by simp, countStep_isSpawning m⟩
  | write ok status startedAt hp => exact .inl ⟨by simp, by simp [Event.isSpawning]⟩
  | _ => exact .inl ⟨rfl, by simp [Event.isSpawning]⟩

end Events

end LlmCtl
