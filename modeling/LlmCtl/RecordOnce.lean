/-
# One record for each completion (`proxy.rs`)

Once the worker's response has arrived, a completion with a session owes the store one turn.
The handler owes it until it has called `record_turn`, and hands the debt to the drain task
if the answer is streamed.  Nothing else watches over the debt: a handler that returns early
or is dropped, a drain task that panics, or ten seconds of waiting for the worker state
lose the turn.  `Debt` is the debt on its own; every run of the daemon, seen from
one completion, is a run of it.
-/
import LlmCtl.BusyGate

namespace LlmCtl

open EventSystem ListTable

/-! ## The debt -/

/-- What an observer notes of one completion. -/
inductive Note where
  /-- The response has arrived, and belongs to a session; an empty id when there is none. -/
  | arrived (sessionId : String)
  /-- `Store::record_turn` is called. -/
  | attempted
  /-- Whoever owed the record is gone, or gives up. -/
  | lost
  deriving DecidableEq, Repr

/-- The state of the debt. -/
inductive Debt where
  | waiting
  | owed (sessionId : String)
  | closed

inductive DebtAct where
  | reject
  | arrive (sessionId : String)
  | attempt
  | lose
  | skip

/-- One step of the debt.  Without a session it is not collected. -/
def debtStep : Debt → DebtAct → Option (Debt × List Note)
  | .waiting, .reject => some (.closed, [])
  | .waiting, .arrive sessionId => some (.owed sessionId, [.arrived sessionId])
  | .owed _, .attempt => some (.closed, [.attempted])
  | .owed sessionId, .lose => if sessionId = "" then none else some (.closed, [.lost])
  | .owed sessionId, .skip => if sessionId = "" then some (.closed, []) else none
  | _, _ => none

/-- The debt as a system. -/
def debt : EventSystem Debt DebtAct Note where
  init := fun l => l = .waiting
  step := debtStep

/-- What has been noted in each state. -/
def Noted : Debt → List Note → Prop
  | .waiting, notes => notes = []
  | .owed sessionId, notes => notes = [.arrived sessionId]
  | .closed, notes => notes = [] ∨ notes = [.arrived ""] ∨
      ∃ sessionId, notes = [.attempted, .arrived sessionId] ∨ notes = [.lost, .arrived sessionId]

/-- **The notes of a run** of the debt are these. -/
theorem noted_of_run {notes : List Note} {l : Debt} (h : debt.Run Anything notes l) :
    Noted l notes := by
  refine h.invariant (I := fun notes l => Noted l notes) ?_ ?_
  · rintro l rfl
    rfl
  · intro notes l a l' ev _ _ hs ih
    replace hs : debtStep l a = some (l', ev) := hs
    unfold debtStep at hs
    split at hs
    · cases hs
      exact .inl ih
    · cases hs
      obtain rfl : notes = [] := ih
      rfl
    · cases hs
      obtain rfl : notes = [.arrived _] := ih
      exact .inr (.inr ⟨_, .inl rfl⟩)
    · split at hs
      · exact absurd hs (by simp)
      · cases hs
        obtain rfl : notes = [.arrived _] := ih
        exact .inr (.inr ⟨_, .inr rfl⟩)
    · split at hs
      · next hempty =>
        cases hs
        obtain rfl : notes = [.arrived _] := ih
        rw [hempty]
        exact .inr (.inl rfl)
      · exact absurd hs (by simp)
    · exact absurd hs (by simp)

/-! ## What is noted of the daemon -/

/-- The session that the handler owes a turn for. -/
def HandlerPc.owes : HandlerPc → String
  | .spawnDrain _ sessionId _ | .readBytes _ sessionId _ => sessionId
  | .stash turn _ => turn.sessionId
  | _ => ""

/-- The same for the drain task. -/
def DrainPc.owes : DrainPc → String
  | .draining _ sessionId _ => sessionId
  | .stash turn _ => turn.sessionId
  | _ => ""

/-- **Does the step lose the turn?**  The body of a plain answer cannot be read or is not JSON;
the handler is dropped, or waits ten seconds for the worker state; the drain task panics, or
waits ten seconds.  A panic of the handler is like a drop. -/
def Completion.loses (c : Completion) : DaemonAct → Bool
  | .handler _ (.failed _) | .handler _ (.bytes none) | .handler _ .cut | .drop _ =>
    decide (c.pc.owes ≠ "")
  | .drain _ (.stop .panicked _) | .drain _ .cut => decide (c.drain.owes ≠ "")
  | _ => false

/-- What shows when the handler goes on by itself. -/
def HandlerPc.nextNote : HandlerPc → Option Note
  | .awaitHead _ _ sessionId _ => some (.arrived sessionId)
  | .stash _ _ => some .attempted
  | _ => none

/-- What a step of the completion shows. -/
def Completion.note (c : Completion) (a : DaemonAct) : Option Note :=
  if c.loses a then some .lost
  else
    match a with
    | .handler _ .next => c.pc.nextNote
    | .drain _ .next => some .attempted
    | _ => none

/-- The completion that takes the step. -/
def DaemonAct.completion? : DaemonAct → Option ℕ
  | .handler i _ | .drain i _ | .drop i => some i
  | _ => none

/-- What a step of the daemon shows, and of which completion. -/
def noteOf (d : Daemon) (a : DaemonAct) : List (ℕ × Note) :=
  (a.completion?.bind fun i => (d.comps[i]?.bind fun c => c.note a).map (i, ·)).toList

/-- The daemon, seen by someone who looks at the records. -/
def recording (cfg : Config) : EventSystem Daemon DaemonAct (ℕ × Note) :=
  (daemon cfg).observe noteOf

/-- What was noted of completion `i`. -/
def notesOf (i : ℕ) (tr : List (ℕ × Note)) : List Note :=
  tr.filterMap fun n => if n.1 = i then some n.2 else none

theorem mem_notesOf {i : ℕ} {n : Note} {tr : List (ℕ × Note)} :
    n ∈ notesOf i tr ↔ (i, n) ∈ tr := by
  simp only [notesOf, List.mem_filterMap, Option.ite_none_right_eq_some, Option.some.injEq]
  constructor
  · rintro ⟨⟨j, m⟩, hmem, rfl, rfl⟩
    exact hmem
  · intro hmem
    exact ⟨_, hmem, rfl, rfl⟩

theorem notesOf_append (i : ℕ) (ev tr : List (ℕ × Note)) :
    notesOf i (ev ++ tr) = notesOf i ev ++ notesOf i tr := List.filterMap_append

/-! ## The debt of a completion -/

/-- The state of the handler's debt. -/
def HandlerPc.debt : HandlerPc → Debt
  | .body | .gate _ _ | .mark _ _ | .acquire _ _ | .session _ _ | .send _ _ _
  | .awaitHead _ _ _ _ => .waiting
  | .spawnDrain _ sessionId _ | .readBytes _ sessionId _ => .owed sessionId
  | .stash turn _ => .owed turn.sessionId
  | .returning | .store _ _ | .build | .replied _ | .dropped => .closed

/-- The state of the debt: the drain task's, once there is one. -/
def Completion.debt (c : Completion) : Debt :=
  match c.drain with
  | .absent => c.pc.debt
  | .draining _ sessionId _ => .owed sessionId
  | .stash turn _ => .owed turn.sessionId
  | .store _ _ | .ended => .closed

/-- The debt of completion `i`; before the call it waits. -/
def Daemon.debtOf (d : Daemon) (i : ℕ) : Debt := (d.comps[i]?.map Completion.debt).getD .waiting

/-- A step of the debt, or none. -/
def DebtMove (l : Debt) (notes : List Note) (l' : Debt) : Prop :=
  (l' = l ∧ notes = []) ∨ ∃ b, debtStep l b = some (l', notes)

theorem DebtMove.stay (l : Debt) : DebtMove l [] l := .inl ⟨rfl, rfl⟩

/-- The turn is lost, or was not owed for any session. -/
theorem DebtMove.close (sessionId : String) :
    DebtMove (.owed sessionId)
      (if decide (sessionId ≠ "") = true then some Note.lost else none).toList .closed := by
  by_cases hs : sessionId = ""
  · exact .inr ⟨.skip, by simp [debtStep, hs]⟩
  · exact .inr ⟨.lose, by simp [debtStep, hs]⟩

/-! ## Every step of a completion is a step of its debt -/

section Step

variable {d d' : Daemon} {i : ℕ} {c : Completion} {ev : List DaemonEvent}

/-- Completion `i` makes a move of its debt, and no other completion changes. -/
def Moves (d d' : Daemon) (i : ℕ) (c : Completion) (a : DaemonAct) : Prop :=
  ∃ c', Updates d.comps d'.comps i c' ∧ DebtMove c.debt (c.note a).toList c'.debt

theorem turnOfResponse_session {sessionId model : String} {answer : Option Json} {t : Turn}
    (h : turnOfResponse sessionId model answer = some t) : t.sessionId = sessionId := by
  unfold turnOfResponse at h
  split at h
  · exact absurd h (by simp)
  · obtain ⟨v, -, rfl⟩ := Option.map_eq_some_iff.mp h
    rfl

/-- A JSON answer with a session is a turn. -/
theorem turnOfResponse_eq_none {sessionId model : String} {v : Json}
    (h : turnOfResponse sessionId model (some v) = none) : sessionId = "" := by
  unfold turnOfResponse at h
  split at h
  · assumption
  · exact absurd h (by simp)

theorem turnOfStream_session {sessionId model : String} {timings : Option Json} {t : Turn}
    (h : turnOfStream sessionId model timings = some t) : t.sessionId = sessionId := by
  unfold turnOfStream at h
  split at h
  · exact absurd h (by simp)
  · obtain rfl := Option.some.inj h
    rfl

/-- A stream with a session is a turn. -/
theorem turnOfStream_eq_none {sessionId model : String} {timings : Option Json}
    (h : turnOfStream sessionId model timings = none) : sessionId = "" := by
  unfold turnOfStream at h
  split at h
  · assumption
  · exact absurd h (by simp)

/-- The handler goes on by itself. -/
theorem handlerNext_moves (hc : d.comps[i]? = some c) (hok : c.Ok)
    (h : handlerNext d i c = some (d', ev)) : Moves d d' i c (.handler i .next) := by
  obtain ⟨body, pc, drain, gone⟩ := c
  cases pc with
  | body | gate | acquire =>
    obtain rfl : drain = .absent := hok.early rfl
    simp only [handlerNext] at h
    split at h
    · cases h
      exact ⟨_, updates_modify hc, .inr ⟨.reject, rfl⟩⟩
    · cases h
      exact ⟨_, updates_modify hc, .stay _⟩
  | mark | build =>
    obtain rfl : drain = .absent := hok.early rfl
    cases h
    exact ⟨_, updates_modify hc, .stay _⟩
  | awaitHead model stream sessionId worker =>
    obtain rfl : drain = .absent := hok.early rfl
    simp only [handlerNext] at h
    split at h
    · cases h
      exact ⟨_, updates_modify hc, .inr ⟨.arrive sessionId, rfl⟩⟩
    · cases h
      exact ⟨_, updates_modify hc, .inr ⟨.arrive sessionId, rfl⟩⟩
  | spawnDrain model sessionId worker =>
    -- The handler hands the debt over to the task that it starts.
    obtain rfl : drain = .absent := hok.early rfl
    cases h
    exact ⟨_, (updates_modify hc).trans (updates_modify (updates_modify hc).self), .stay _⟩
  | returning =>
    cases h
    refine ⟨_, updates_modify hc, .inl ⟨?_, rfl⟩⟩
    cases drain <;> rfl
  | stash turn worker =>
    obtain rfl : drain = .absent := hok.early rfl
    cases h
    exact ⟨_, updates_modify hc, .inr ⟨.attempt, rfl⟩⟩
  | session | send | readBytes | store | replied | dropped => exact absurd h (by simp [handlerNext])

/-- One step of the handler. -/
theorem handlerStep_moves {act : HandlerAct} (hc : d.comps[i]? = some c) (hok : c.Ok)
    (h : handlerStep d i c act = some (d', ev)) : Moves d d' i c (.handler i act) := by
  cases act with
  | next => exact handlerNext_moves hc hok h
  | session sessionId =>
    obtain ⟨body, pc, drain, gone⟩ := c
    simp only [handlerStep] at h
    split at h
    · obtain rfl : drain = .absent := hok.early rfl
      cases h
      exact ⟨_, updates_modify hc, .stay _⟩
    · exact absurd h (by simp)
  | reached worker =>
    obtain ⟨body, pc, drain, gone⟩ := c
    simp only [handlerStep] at h
    split at h
    · obtain rfl : drain = .absent := hok.early rfl
      split at h
      · cases h
        exact ⟨_, updates_modify hc, .stay _⟩
      · exact absurd h (by simp)
    · exact absurd h (by simp)
  | failed e =>
    obtain ⟨body, pc, drain, gone⟩ := c
    simp only [handlerStep] at h
    split at h
    · obtain rfl : drain = .absent := hok.early rfl
      cases h
      exact ⟨_, updates_modify hc, .inr ⟨.reject, rfl⟩⟩
    · obtain rfl : drain = .absent := hok.early rfl
      cases h
      exact ⟨_, updates_modify hc, .inr ⟨.reject, rfl⟩⟩
    · obtain rfl : drain = .absent := hok.early rfl
      cases h
      exact ⟨_, updates_modify hc, .close _⟩
    · exact absurd h (by simp)
  | bytes answer =>
    obtain ⟨body, pc, drain, gone⟩ := c
    simp only [handlerStep] at h
    split at h
    · next model sessionId worker =>
      obtain rfl : drain = .absent := hok.early rfl
      split at h
      · next turn hturn =>
        cases h
        refine ⟨_, updates_modify hc, .inl ⟨?_, ?_⟩⟩
        · show Debt.owed turn.sessionId = .owed sessionId
          rw [turnOfResponse_session hturn]
        · cases answer with
          | some v => rfl
          | none => exact absurd hturn (by simp [turnOfResponse])
      · next hturn =>
        cases h
        cases answer with
        | none => exact ⟨_, updates_modify hc, .close _⟩
        | some v =>
          obtain rfl := turnOfResponse_eq_none hturn
          exact ⟨_, updates_modify hc, .inr ⟨.skip, rfl⟩⟩
    · exact absurd h (by simp)
  | cut =>
    obtain ⟨body, pc, drain, gone⟩ := c
    simp only [handlerStep] at h
    split at h
    · obtain rfl : drain = .absent := hok.early rfl
      cases h
      exact ⟨_, updates_modify hc, .close _⟩
    · exact absurd h (by simp)
  | stored committed =>
    obtain ⟨body, pc, drain, gone⟩ := c
    simp only [handlerStep] at h
    split at h
    · obtain rfl : drain = .absent := hok.early rfl
      cases h
      exact ⟨_, updates_modify hc, .stay _⟩
    · exact absurd h (by simp)

/-- One step of the drain task. -/
theorem drainStep_moves {act : DrainAct} (hc : d.comps[i]? = some c)
    (h : drainStep d i c act = some (d', ev)) : Moves d d' i c (.drain i act) := by
  obtain ⟨body, pc, drain, gone⟩ := c
  cases act with
  | stop why timings =>
    simp only [drainStep] at h
    split at h
    · next model sessionId worker =>
      split at h
      · next turn hturn =>
        split at h
        · next hwhy =>
          subst hwhy
          cases h
          exact ⟨_, updates_modify hc, .close _⟩
        · next hwhy =>
          cases h
          refine ⟨_, updates_modify hc, .inl ⟨?_, ?_⟩⟩
          · show Debt.owed turn.sessionId = .owed sessionId
            rw [turnOfStream_session hturn]
          · cases why with
            | panicked => exact absurd rfl hwhy
            | _ => rfl
      · next hturn =>
        obtain rfl := turnOfStream_eq_none hturn
        cases h
        refine ⟨_, updates_modify hc, .inr ⟨.skip, ?_⟩⟩
        cases why <;> rfl
    · exact absurd h (by simp)
  | next =>
    simp only [drainStep] at h
    split at h
    · cases h
      exact ⟨_, updates_modify hc, .inr ⟨.attempt, rfl⟩⟩
    · exact absurd h (by simp)
  | cut =>
    simp only [drainStep] at h
    split at h
    · cases h
      exact ⟨_, updates_modify hc, .close _⟩
    · exact absurd h (by simp)
  | stored committed =>
    simp only [drainStep] at h
    split at h
    · cases h
      exact ⟨_, updates_modify hc, .stay _⟩
    · exact absurd h (by simp)

/-- The handler is dropped. -/
theorem dropStep_moves (hc : d.comps[i]? = some c) (hok : c.Ok)
    (h : dropStep d i c = some (d', ev)) : Moves d d' i c (.drop i) := by
  simp only [dropStep] at h
  split at h
  · next hawait =>
    have hcomps : d'.comps = d.comps.modify i fun c => c.goto .dropped := by
      split at h <;> cases h <;> rfl
    refine ⟨c.goto .dropped, hcomps ▸ updates_modify hc, ?_⟩
    obtain ⟨body, pc, drain, gone⟩ := c
    cases pc with
    | body | gate | mark | session | send | awaitHead =>
      obtain rfl : drain = .absent := hok.early rfl
      exact .inr ⟨.reject, rfl⟩
    | readBytes | stash =>
      obtain rfl : drain = .absent := hok.early rfl
      exact .close _
    | store =>
      obtain rfl : drain = .absent := hok.early rfl
      exact .stay _
    | acquire | spawnDrain | returning | build | replied | dropped =>
      exact absurd hawait Bool.false_ne_true
  · exact absurd h (by simp)

end Step

/-! ## Runs -/

/-- The drain task of every completion is where its handler lets it be. -/
def CompletionsOk (d : Daemon) : Prop :=
  ∀ (i : ℕ) (c : Completion), d.comps[i]? = some c → c.Ok

/-- **Every step keeps the completions in order.** -/
theorem DaemonStep.completionsOk {cfg : Config} {d d' : Daemon} {a : DaemonAct}
    {ev : List DaemonEvent} (hs : DaemonStep cfg d a ev d') (h : CompletionsOk d) :
    CompletionsOk d' := by
  have hupdated : ∀ {i : ℕ} {c' : Completion}, Updates d.comps d'.comps i c' → c'.Ok →
      CompletionsOk d' := by
    intro i c' hu hok j x hx
    rcases hu.cases hx with ⟨-, rfl⟩ | ⟨-, hx'⟩
    · exact hok
    · exact h j x hx'
  cases hs with
  | sup a s ev' ha hstep => exact h
  | call body hacc =>
    intro j x hx
    rcases getElem?_concat_cases hx with hx' | ⟨-, rfl⟩
    · exact h j x hx'
    · exact ⟨fun _ => rfl, fun hr => absurd hr (by simp [Completion.new])⟩
  | move i c pc hc hm => exact hupdated (updates_modify hc) (hm.ok (h i c hc))
  | gated i c m model stream hc hp | mark i c model stream hc hp
  | acquire i c model stream hc hp
  | reached i c model sessionId stream worker hc hp | stash i c turn worker hc hp
  | stored i c turn worker committed hc hp =>
    exact hupdated (updates_modify hc) ((h i c hc).goto (.inl (by rw [hp]; rfl)) (by simp))
  | finish i c pc hc hg hr hover =>
    refine hupdated (updates_modify hc) ((h i c hc).goto (.inr hover) ?_)
    rintro rfl
    exact absurd hover Bool.false_ne_true
  | spawnDrain i c model sessionId worker hc hp =>
    exact hupdated ((updates_modify hc).trans (updates_modify (updates_modify hc).self))
      ⟨fun hpast => absurd hpast (by simp [HandlerPc.pastDrain]), by simp⟩
  | returned i c hc hp =>
    exact hupdated (updates_modify hc) ((h i c hc).goto (.inr rfl) (by simp))
  | disconnect i c hc =>
    exact hupdated (updates_modify hc) ⟨(h i c hc).early, (h i c hc).spawned⟩
  | drained i c model sessionId worker why timings turn hc hp
  | drainStash i c turn worker hc hp | drainStored i c turn worker hc hp =>
    exact hupdated (updates_modify hc) ((h i c hc).drainTo (by rw [hp]; rfl) (by simp))
  | drainEnded i c t hc hp =>
    exact hupdated (updates_modify hc) ((h i c hc).drainTo hp (by simp))

theorem completionsOk_of_run {cfg : Config} {ok : List DaemonEvent → Daemon → DaemonAct → Prop}
    {tr : List DaemonEvent} {d : Daemon} (h : (daemon cfg).Run ok tr d) : CompletionsOk d := by
  refine h.invariant (I := fun _ d => CompletionsOk d) ?_ ?_
  · rintro d ⟨autostart, rfl⟩ i c hc
    exact absurd hc (by simp [Daemon.init])
  · intro tr d a d' ev _ _ hs hok
    exact (daemonStep_cases hs).completionsOk hok

section Run

variable {cfg : Config}

/-- What a move of completion `j` is for completion `i`. -/
theorem Moves.debtOf {d d' : Daemon} {i j : ℕ} {c : Completion} {a : DaemonAct}
    (h : Moves d d' j c a) (hc : d.comps[j]? = some c) (ha : a.completion? = some j) :
    DebtMove (d.debtOf i) (notesOf i (noteOf d a)) (d'.debtOf i) := by
  obtain ⟨c', hu, hm⟩ := h
  have hnote : noteOf d a = ((c.note a).map (j, ·)).toList := by
    rw [noteOf, ha, Option.bind_some, hc, Option.bind_some]
  rw [hnote]
  by_cases hij : j = i
  · subst hij
    have hbefore : d.debtOf j = c.debt := by rw [Daemon.debtOf, hc]; rfl
    have hafter : d'.debtOf j = c'.debt := by rw [Daemon.debtOf, hu.self]; rfl
    have hnotes : notesOf j ((c.note a).map (j, ·)).toList = (c.note a).toList := by
      cases c.note a <;> simp [notesOf]
    rw [hbefore, hafter, hnotes]
    exact hm
  · have hsame : d'.debtOf i = d.debtOf i := by
      rw [Daemon.debtOf, hu.other i (Ne.symm hij), Daemon.debtOf]
    have hnotes : notesOf i ((c.note a).map (j, ·)).toList = [] := by
      cases c.note a <;> simp [notesOf, hij]
    rw [hsame, hnotes]
    exact .stay _

/-- **One step of the daemon**, seen from completion `i`. -/
theorem daemonStep_debt {d d' : Daemon} {a : DaemonAct} {ev : List DaemonEvent}
    (hok : CompletionsOk d) (h : daemonStep cfg d a = some (d', ev)) (i : ℕ) :
    DebtMove (d.debtOf i) (notesOf i (noteOf d a)) (d'.debtOf i) := by
  cases a with
  | sup a =>
    simp only [daemonStep] at h
    split at h
    · split at h
      · cases h
        exact .stay _
      · exact absurd h (by simp)
    · exact absurd h (by simp)
  | call body =>
    simp only [daemonStep] at h
    split at h
    · cases h
      refine .inl ⟨?_, rfl⟩
      simp only [Daemon.debtOf]
      rcases lt_trichotomy i d.comps.length with hi | rfl | hi
      · rw [List.getElem?_append_left hi]
      · simp [Completion.new, Completion.debt, HandlerPc.debt]
      · rw [List.getElem?_eq_none (by simp; omega), List.getElem?_eq_none (by omega)]
    · exact absurd h (by simp)
  | handler j act =>
    simp only [daemonStep] at h
    split at h
    · next c hc => exact (handlerStep_moves hc (hok j c hc) h).debtOf hc rfl
    · exact absurd h (by simp)
  | drain j act =>
    simp only [daemonStep] at h
    split at h
    · next c hc => exact (drainStep_moves hc h).debtOf hc rfl
    · exact absurd h (by simp)
  | drop j =>
    simp only [daemonStep] at h
    split at h
    · next c hc => exact (dropStep_moves hc (hok j c hc) h).debtOf hc rfl
    · exact absurd h (by simp)
  | disconnect j =>
    simp only [daemonStep] at h
    split at h
    · next c hc =>
      split at h
      · cases h
        refine .inl ⟨?_, rfl⟩
        simp only [Daemon.debtOf, List.getElem?_modify]
        cases d.comps[i]? with
        | none => rfl
        | some x =>
          by_cases hij : j = i
          · simp [hij, Completion.debt]
          · simp [hij]
      · exact absurd h (by simp)
    · exact absurd h (by simp)

/-- **From one completion the daemon looks like a debt.** -/
theorem debt_of_run {tr : List (ℕ × Note)} {d : Daemon}
    (h : (recording cfg).Run Anything tr d) (i : ℕ) :
    debt.Run Anything (notesOf i tr) (d.debtOf i) := by
  refine h.project (fun d => d.debtOf i) (notesOf i) rfl (notesOf_append i) ?_ ?_
  · rintro d ⟨autostart, rfl⟩
    rfl
  · intro tr d a d' ev hrun _ hs
    obtain ⟨rfl, ev', hstep⟩ := observe_step hs
    obtain ⟨tr', hrun'⟩ := hrun.of_observe
    rcases daemonStep_debt (completionsOk_of_run hrun') hstep i with hstay | ⟨b, hb⟩
    · exact .inl hstay
    · exact .inr ⟨b, trivial, hb⟩

end Run

/-! ## Results -/

/-- Is the completion over: has the handler ended, and the drain task as well, if there is
one? -/
def Completion.isOver (c : Completion) : Bool := c.pc.isOver && !c.drain.isRunning

/-- Nothing is owed by a completion that is over. -/
theorem Completion.debt_of_isOver {c : Completion} (h : c.isOver = true) : c.debt = .closed := by
  obtain ⟨body, pc, drain, gone⟩ := c
  simp only [Completion.isOver, Bool.and_eq_true, Bool.not_eq_true'] at h
  obtain ⟨hover, hdrain⟩ := h
  cases drain with
  | absent =>
    cases pc with
    | replied | dropped => rfl
    | _ => exact absurd hover Bool.false_ne_true
  | ended => rfl
  | draining | stash | store => exact absurd hdrain.symm Bool.false_ne_true

end LlmCtl
