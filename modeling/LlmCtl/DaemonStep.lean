/-
# What one step of the daemon can do

The outcomes of `daemonStep`, one constructor for each way in which a step changes the
shared data or emits an event, with `HandlerMove` for the moves of a handler that do
neither; and the projection of a run of the daemon to a run of its supervisor.
-/
import LlmCtl.Daemon

namespace LlmCtl

open EventSystem

/-- A move of a handler that changes only its program point. -/
inductive HandlerMove (d : Daemon) (c : Completion) : HandlerPc → Prop
  | read (m : String) (stream : Bool) (hp : c.pc = .body)
      (hb : readBody c.body = .ok (m, stream)) : HandlerMove d c (.gate m stream)
  | ended (pc : HandlerPc) (hg : c.pc.holdsGuard = false) (hover : pc.isOver = true) :
      HandlerMove d c pc
  | resolved (model sessionId : String) (stream : Bool) (hp : c.pc = .session model stream) :
      HandlerMove d c (.send model stream sessionId)
  | headStream (model sessionId : String) (worker : ℕ)
      (hp : c.pc = .awaitHead model true sessionId worker) :
      HandlerMove d c (.spawnDrain model sessionId worker)
  | headPlain (model sessionId : String) (worker : ℕ)
      (hp : c.pc = .awaitHead model false sessionId worker) :
      HandlerMove d c (.readBytes model sessionId worker)
  | turn (model sessionId : String) (worker : ℕ) (answer : Option Json) (turn : Turn)
      (hp : c.pc = .readBytes model sessionId worker)
      (ht : turnOfResponse sessionId model answer = some turn) :
      HandlerMove d c (.stash turn worker)
  | noTurn (model sessionId : String) (worker : ℕ)
      (hp : c.pc = .readBytes model sessionId worker) : HandlerMove d c .build
  | cut (turn : Turn) (worker : ℕ) (hp : c.pc = .stash turn worker) : HandlerMove d c .build

/-- **The outcomes of a step**: action, events (newest first), next state. -/
inductive DaemonStep (cfg : Config) (d : Daemon) : DaemonAct → List DaemonEvent → Daemon → Prop
  | sup (a : Act) (s : Sup) (ev : List Event) (ha : d.admits a = true)
      (hs : step cfg d.sup a = some (s, ev)) :
      DaemonStep cfg d (.sup a) (ev.map .sup) { d with sup := s }
  | call (body : Body) (h : d.sup.main.accepts = true) :
      DaemonStep cfg d (.call body) [] { d with comps := d.comps ++ [.new body] }
  | move {a : DaemonAct} (i : ℕ) (c : Completion) (pc : HandlerPc)
      (hc : d.comps[i]? = some c) (hm : HandlerMove d c pc) :
      DaemonStep cfg d a [] (d.setPc i pc)
  | gated (i : ℕ) (c : Completion) (m model : String) (stream : Bool)
      (hc : d.comps[i]? = some c) (hp : c.pc = .gate m stream)
      (hg : modelGate d.sup.st.modelId m = .ok model) :
      DaemonStep cfg d (.handler i .next) [.passed i model] (d.setPc i (.mark model stream))
  | mark (i : ℕ) (c : Completion) (model : String) (stream : Bool)
      (hc : d.comps[i]? = some c) (hp : c.pc = .mark model stream) :
      DaemonStep cfg d (.handler i .next) []
        ((d.touch (d.sup.st.markRequest d.sup.clock)).setPc i (.acquire model stream))
  | acquire (i : ℕ) (c : Completion) (model : String) (stream : Bool)
      (hc : d.comps[i]? = some c) (hp : c.pc = .acquire model stream) (hb : d.busy = false) :
      DaemonStep cfg d (.handler i .next) [.acquired i]
        ({ d with busy := true }.setPc i (.session model stream))
  | reached (i : ℕ) (c : Completion) (model sessionId : String) (stream : Bool) (worker : ℕ)
      (hc : d.comps[i]? = some c) (hp : c.pc = .send model stream sessionId)
      (hl : d.sup.procs[worker]?.any Proc.live = true) :
      DaemonStep cfg d (.handler i (.reached worker)) [.sent i model worker]
        (d.setPc i (.awaitHead model stream sessionId worker))
  | finish {a : DaemonAct} (i : ℕ) (c : Completion) (pc : HandlerPc)
      (hc : d.comps[i]? = some c) (hg : c.pc.holdsGuard = true) (hr : c.pc ≠ .returning)
      (hover : pc.isOver = true) :
      DaemonStep cfg d a [.released i, .turnOver i] (d.unlock.setPc i pc)
  | spawnDrain (i : ℕ) (c : Completion) (model sessionId : String) (worker : ℕ)
      (hc : d.comps[i]? = some c) (hp : c.pc = .spawnDrain model sessionId worker) :
      DaemonStep cfg d (.handler i .next) []
        ((d.setPc i .returning).setDrain i (.draining model sessionId worker))
  | returned (i : ℕ) (c : Completion) (hc : d.comps[i]? = some c) (hp : c.pc = .returning) :
      DaemonStep cfg d (.handler i .next) [.released i] (d.unlock.setPc i (.replied none))
  | stash (i : ℕ) (c : Completion) (turn : Turn) (worker : ℕ) (hc : d.comps[i]? = some c)
      (hp : c.pc = .stash turn worker) :
      DaemonStep cfg d (.handler i .next) []
        ((d.touch (d.sup.st.stashTurn turn.stash)).setPc i (.store turn worker))
  | stored (i : ℕ) (c : Completion) (turn : Turn) (worker : ℕ) (committed : Bool)
      (hc : d.comps[i]? = some c) (hp : c.pc = .store turn worker) :
      DaemonStep cfg d (.handler i (.stored committed))
        (if committed then [.recorded i turn worker] else []) (d.setPc i .build)
  | disconnect (i : ℕ) (c : Completion) (hc : d.comps[i]? = some c) :
      DaemonStep cfg d (.disconnect i) []
        { d with comps := d.comps.modify i fun c => { c with clientGone := true } }
  | drained (i : ℕ) (c : Completion) (model sessionId : String) (worker : ℕ)
      (why : DrainEnd) (timings : Option Json) (turn : Turn) (hc : d.comps[i]? = some c)
      (hp : c.drain = .draining model sessionId worker)
      (ht : turnOfStream sessionId model timings = some turn) :
      DaemonStep cfg d (.drain i (.stop why timings)) [] (d.setDrain i (.stash turn worker))
  | drainStash (i : ℕ) (c : Completion) (turn : Turn) (worker : ℕ)
      (hc : d.comps[i]? = some c) (hp : c.drain = .stash turn worker) :
      DaemonStep cfg d (.drain i .next) []
        ((d.touch (d.sup.st.stashTurn turn.stash)).setDrain i (.store turn worker))
  | drainEnded (i : ℕ) (c : Completion) (t : DrainAct) (hc : d.comps[i]? = some c)
      (hp : c.drain.isRunning = true) :
      DaemonStep cfg d (.drain i t) [.turnOver i] (d.setDrain i .ended)
  | drainStored (i : ℕ) (c : Completion) (turn : Turn) (worker : ℕ)
      (hc : d.comps[i]? = some c) (hp : c.drain = .store turn worker) :
      DaemonStep cfg d (.drain i (.stored true)) [.turnOver i, .recorded i turn worker]
        (d.setDrain i .ended)

/-! ## Every step is one of these -/

section Cases

variable {cfg : Config} {d d' : Daemon} {i : ℕ} {c : Completion} {ev : List DaemonEvent}

theorem handlerNext_cases (hc : d.comps[i]? = some c) (h : handlerNext d i c = some (d', ev)) :
    DaemonStep cfg d (.handler i .next) ev d' := by
  cases hp : c.pc with
  | body =>
    simp only [handlerNext, hp] at h
    split at h
    · cases h
      exact .move i c _ hc (.ended _ (by simp [hp, HandlerPc.holdsGuard]) rfl)
    · next m stream hb =>
      cases h
      exact .move i c _ hc (.read m stream hp hb)
  | gate m stream =>
    simp only [handlerNext, hp] at h
    split at h
    · cases h
      exact .move i c _ hc (.ended _ (by simp [hp, HandlerPc.holdsGuard]) rfl)
    · next model hg =>
      cases h
      exact .gated i c m model stream hc hp hg
  | mark model stream =>
    simp only [handlerNext, hp] at h
    cases h
    exact .mark i c model stream hc hp
  | acquire model stream =>
    simp only [handlerNext, hp] at h
    split at h
    · cases h
      exact .move i c _ hc (.ended _ (by simp [hp, HandlerPc.holdsGuard]) rfl)
    · next hb =>
      cases h
      exact .acquire i c model stream hc hp (by simpa using hb)
  | awaitHead model stream sessionId worker =>
    simp only [handlerNext, hp] at h
    split at h
    · next hs =>
      cases h
      exact .move i c _ hc (.headStream model sessionId worker (by rw [hp, hs]))
    · next hs =>
      cases h
      have hfalse : stream = false := by simpa using hs
      exact .move i c _ hc (.headPlain model sessionId worker (by rw [hp, hfalse]))
  | spawnDrain model sessionId worker =>
    simp only [handlerNext, hp] at h
    cases h
    exact .spawnDrain i c model sessionId worker hc hp
  | returning =>
    simp only [handlerNext, hp] at h
    cases h
    exact .returned i c hc hp
  | stash turn worker =>
    simp only [handlerNext, hp] at h
    cases h
    exact .stash i c turn worker hc hp
  | build =>
    simp only [handlerNext, hp] at h
    cases h
    exact .finish i c _ hc (by simp [hp, HandlerPc.holdsGuard]) (by simp [hp]) rfl
  | session | send | readBytes | store | replied | dropped => simp [handlerNext, hp] at h

theorem handlerStep_cases {h : HandlerAct} (hc : d.comps[i]? = some c)
    (hs : handlerStep d i c h = some (d', ev)) : DaemonStep cfg d (.handler i h) ev d' := by
  cases h with
  | next => exact handlerNext_cases hc hs
  | session sessionId =>
    simp only [handlerStep] at hs
    split at hs
    · next model stream hp =>
      cases hs
      exact .move i c _ hc (.resolved model sessionId stream hp)
    · exact absurd hs (by simp)
  | reached worker =>
    simp only [handlerStep] at hs
    split at hs
    · next model stream sessionId hp =>
      split at hs
      · next hl =>
        cases hs
        exact .reached i c model sessionId stream worker hc hp hl
      · exact absurd hs (by simp)
    · exact absurd hs (by simp)
  | failed e =>
    simp only [handlerStep] at hs
    split at hs
    · next hp =>
      cases hs
      exact .finish i c _ hc (by simp [hp, HandlerPc.holdsGuard]) (by simp [hp]) rfl
    · next hp =>
      cases hs
      exact .finish i c _ hc (by simp [hp, HandlerPc.holdsGuard]) (by simp [hp]) rfl
    · next hp =>
      cases hs
      exact .finish i c _ hc (by simp [hp, HandlerPc.holdsGuard]) (by simp [hp]) rfl
    · exact absurd hs (by simp)
  | bytes answer =>
    simp only [handlerStep] at hs
    split at hs
    · next model sessionId worker hp =>
      split at hs
      · next turn ht =>
        cases hs
        exact .move i c _ hc (.turn model sessionId worker answer turn hp ht)
      · cases hs
        exact .move i c _ hc (.noTurn model sessionId worker hp)
    · exact absurd hs (by simp)
  | cut =>
    simp only [handlerStep] at hs
    split at hs
    · next turn worker hp =>
      cases hs
      exact .move i c _ hc (.cut turn worker hp)
    · exact absurd hs (by simp)
  | stored committed =>
    simp only [handlerStep] at hs
    split at hs
    · next turn worker hp =>
      cases hs
      exact .stored i c turn worker committed hc hp
    · exact absurd hs (by simp)

theorem drainStep_cases {t : DrainAct} (hc : d.comps[i]? = some c)
    (hs : drainStep d i c t = some (d', ev)) : DaemonStep cfg d (.drain i t) ev d' := by
  cases t with
  | stop why timings =>
    simp only [drainStep] at hs
    split at hs
    · next model sessionId worker hp =>
      have hrun : c.drain.isRunning = true := by rw [hp]; rfl
      split at hs
      · next turn ht =>
        split at hs
        · cases hs
          exact .drainEnded i c _ hc hrun
        · cases hs
          exact .drained i c model sessionId worker why timings turn hc hp ht
      · cases hs
        exact .drainEnded i c _ hc hrun
    · exact absurd hs (by simp)
  | next =>
    simp only [drainStep] at hs
    split at hs
    · next turn worker hp =>
      cases hs
      exact .drainStash i c turn worker hc hp
    · exact absurd hs (by simp)
  | cut =>
    simp only [drainStep] at hs
    split at hs
    · next turn worker hp =>
      cases hs
      exact .drainEnded i c _ hc (by rw [hp]; rfl)
    · exact absurd hs (by simp)
  | stored committed =>
    simp only [drainStep] at hs
    split at hs
    · next turn worker hp =>
      cases committed with
      | true =>
        cases hs
        exact .drainStored i c turn worker hc hp
      | false =>
        cases hs
        exact .drainEnded i c _ hc (by rw [hp]; rfl)
    · exact absurd hs (by simp)

theorem dropStep_cases (hc : d.comps[i]? = some c) (hs : dropStep d i c = some (d', ev)) :
    DaemonStep cfg d (.drop i) ev d' := by
  unfold dropStep at hs
  split at hs
  · next ha =>
    split at hs
    · next hg =>
      cases hs
      refine .finish i c _ hc hg (fun hr => ?_) rfl
      rw [hr] at ha
      exact absurd ha (by simp [HandlerPc.atAwait])
    · next hg =>
      cases hs
      exact .move i c _ hc (.ended _ (by simpa using hg) rfl)
  · exact absurd hs (by simp)

end Cases

/-- **Inversion of a step of the daemon.** -/
theorem daemonStep_cases {cfg : Config} {d d' : Daemon} {a : DaemonAct}
    {ev : List DaemonEvent} (h : daemonStep cfg d a = some (d', ev)) :
    DaemonStep cfg d a ev d' := by
  cases a with
  | sup a =>
    simp only [daemonStep] at h
    split at h
    · next ha =>
      split at h
      · next s ev' hs =>
        cases h
        exact .sup a s ev' ha hs
      · exact absurd h (by simp)
    · exact absurd h (by simp)
  | call body =>
    simp only [daemonStep] at h
    split at h
    · next ha =>
      cases h
      exact .call body ha
    · exact absurd h (by simp)
  | handler i act =>
    simp only [daemonStep] at h
    split at h
    · next c hc => exact handlerStep_cases hc h
    · exact absurd h (by simp)
  | drain i t =>
    simp only [daemonStep] at h
    split at h
    · next c hc => exact drainStep_cases hc h
    · exact absurd h (by simp)
  | drop i =>
    simp only [daemonStep] at h
    split at h
    · next c hc => exact dropStep_cases hc h
    · exact absurd h (by simp)
  | disconnect i =>
    simp only [daemonStep] at h
    split at h
    · next c hc =>
      split at h
      · cases h
        exact .disconnect i c hc
      · exact absurd h (by simp)
    · exact absurd h (by simp)

/-! ## The supervisor inside the daemon -/

/-- The supervisor's part of an event. -/
def DaemonEvent.supEvent : DaemonEvent → Option Event
  | .sup e => some e
  | _ => none

/-- The supervisor's events of a run. -/
def supTrace (tr : List DaemonEvent) : List Event := tr.filterMap DaemonEvent.supEvent

/-- The step, if the supervisor's tasks take it. -/
def DaemonAct.supAct : DaemonAct → Option Act
  | .sup a => some a
  | _ => none

/-- A filter on the steps of the supervisor's tasks. -/
def OnSup (ok : List Event → Sup → Act → Prop) (tr : List DaemonEvent) (d : Daemon)
    (a : DaemonAct) : Prop := ∀ b ∈ a.supAct, ok (supTrace tr) d.sup b

instance {ok : List Event → Sup → Act → Prop} [∀ tr s a, Decidable (ok tr s a)]
    (tr : List DaemonEvent) (d : Daemon) (a : DaemonAct) : Decidable (OnSup ok tr d a) :=
  inferInstanceAs (Decidable (∀ b ∈ a.supAct, ok (supTrace tr) d.sup b))

theorem supTrace_append (ev tr : List DaemonEvent) :
    supTrace (ev ++ tr) = supTrace ev ++ supTrace tr := List.filterMap_append

theorem supTrace_map_sup (ev : List Event) : supTrace (ev.map .sup) = ev := by
  induction ev with
  | nil => rfl
  | cons e ev ih =>
    show e :: supTrace (ev.map .sup) = e :: ev
    rw [ih]

/-- What a step of the daemon does to the supervisor: a step of its tasks, one of the two
writes of a completion, or nothing. -/
theorem DaemonStep.onSup {cfg : Config} {d d' : Daemon} {a : DaemonAct} {ev : List DaemonEvent}
    (hs : DaemonStep cfg d a ev d') :
    (d'.sup = d.sup ∧ supTrace ev = []) ∨
      ∃ b, (a.supAct = some b ∨ b = .markRequest ∨ ∃ turn, b = .stashTurn turn) ∧
        step cfg d.sup b = some (d'.sup, supTrace ev) := by
  cases hs with
  | sup b s ev' ha hstep =>
    refine .inr ⟨b, .inl rfl, ?_⟩
    rw [supTrace_map_sup]
    exact hstep
  | mark i c model stream hc hp => exact .inr ⟨.markRequest, .inr (.inl rfl), rfl⟩
  | stash i c turn worker hc hp =>
    exact .inr ⟨.stashTurn turn.stash, .inr (.inr ⟨_, rfl⟩), rfl⟩
  | drainStash i c turn worker hc hp =>
    exact .inr ⟨.stashTurn turn.stash, .inr (.inr ⟨_, rfl⟩), rfl⟩
  | stored i c turn worker committed hc hp =>
    refine .inl ⟨rfl, ?_⟩
    cases committed <;> rfl
  | _ => exact .inl ⟨rfl, rfl⟩

/-- **The supervisor's view of a run**: a run of the daemon is a run of its supervisor, when
the filter lets the writes of the completions pass. -/
theorem sup_of_run {cfg : Config} {ok : List Event → Sup → Act → Prop}
    (hmark : ∀ tr s, ok tr s .markRequest) (hstash : ∀ tr s turn, ok tr s (.stashTurn turn))
    {tr : List DaemonEvent} {d : Daemon} (h : (daemon cfg).Run (OnSup ok) tr d) :
    (supervisor cfg).Run ok (supTrace tr) d.sup := by
  refine h.project Daemon.sup supTrace rfl supTrace_append ?_ ?_
  · rintro d ⟨autostart, rfl⟩
    exact ⟨autostart, rfl⟩
  · intro tr d a d' ev _ hok hs
    rcases (daemonStep_cases hs).onSup with hsame | ⟨b, hb, hstep⟩
    · exact .inl hsame
    · refine .inr ⟨b, ?_, hstep⟩
      rcases hb with hact | rfl | ⟨turn, rfl⟩
      · exact hok b hact
      · exact hmark _ _
      · exact hstash _ _ _

end LlmCtl
