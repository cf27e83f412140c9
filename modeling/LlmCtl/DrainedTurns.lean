/-
# Are the turns drained before the worker stops? (`main.rs`, `proxy.rs`)

After a signal `main` waits for the open connections and then stops the worker.  A streamed
completion is drained by a task of its own, which keeps its connection open only as long as
its client stays: when the client has left, the task drains on, and nobody waits for it.

In every run in which no such task is left when the connections have drained, every completion
is over by the time of the final stop; and if no task gave up its record, every streamed turn
has been handed to the store.
-/
import LlmCtl.BusyFlag
import LlmCtl.RecordOnce
import LlmCtl.ShutdownSafe

namespace LlmCtl

open EventSystem ListTable

/-! ## The property -/

/-- Every completion is over, and every streamed one with a session has had its turn handed to
`Store::record_turn`. -/
structure TurnsServed (tr : List (ℕ × Note)) (d : Daemon) : Prop where
  ended : ∀ (i : ℕ) (c : Completion), d.comps[i]? = some c → c.isOver = true
  handed : ∀ (i : ℕ) (c : Completion) (sessionId : String), d.comps[i]? = some c →
    c.drain ≠ .absent → (i, .arrived sessionId) ∈ tr → sessionId ≠ "" → (i, .attempted) ∈ tr

/-! ## The condition -/

/-- When the connections have drained no task runs on for a client that has left, and no drain
task gives up its record. -/
def NoneLeftBehind (_ : List (ℕ × Note)) (d : Daemon) : DaemonAct → Prop
  | .sup .drained => ∀ c ∈ d.comps, c.clientGone = true → c.drain.isRunning = false
  | .drain i t => ∀ c ∈ d.comps[i]?, c.loses (.drain i t) = false
  | _ => True

instance (tr : List (ℕ × Note)) (d : Daemon) (a : DaemonAct) :
    Decidable (NoneLeftBehind tr d a) := by
  unfold NoneLeftBehind
  split <;> infer_instance

/-! ## Everybody has ended -/

/-- Every completion has ended. -/
def Daemon.AllOver (d : Daemon) : Prop :=
  ∀ (i : ℕ) (c : Completion), d.comps[i]? = some c → c.isOver = true

theorem Completion.isOver_iff {c : Completion} :
    c.isOver = true ↔ c.pc.isOver = true ∧ c.drain.isRunning = false := by
  simp [Completion.isOver]

/-- Once no call is accepted, completions that have ended stay so. -/
theorem DaemonStep.keepsOver {cfg : Config} {d d' : Daemon} {a : DaemonAct}
    {ev : List DaemonEvent} (hs : DaemonStep cfg d a ev d')
    (hclosed : d.sup.main.accepts = false) (h : d.AllOver) : d'.AllOver := by
  have hupdated : ∀ {i : ℕ} {c' : Completion}, Updates d.comps d'.comps i c' →
      c'.isOver = true → d'.AllOver := by
    intro i c' hu hover j x hx
    rcases hu.cases hx with ⟨-, rfl⟩ | ⟨-, hx'⟩
    · exact hover
    · exact h j x hx'
  have hpc : ∀ {i : ℕ} {c : Completion}, d.comps[i]? = some c → c.pc.isOver = true :=
    fun hc => (Completion.isOver_iff.mp (h _ _ hc)).1
  have hdrain : ∀ {i : ℕ} {c : Completion}, d.comps[i]? = some c → c.drain.isRunning = false :=
    fun hc => (Completion.isOver_iff.mp (h _ _ hc)).2
  cases hs with
  | sup a s ev' ha hstep => exact h
  | call body hacc =>
    rw [hclosed] at hacc
    exact absurd hacc Bool.false_ne_true
  | move i c pc hc hm =>
    cases hm with
    | ended _ hg hover =>
      have hstill : c.drain.isRunning = false := hdrain hc
      exact hupdated (updates_modify hc) (Completion.isOver_iff.mpr ⟨hover, hstill⟩)
    | read m stream hp | resolved model sessionId stream hp
    | headStream model sessionId worker hp | headPlain model sessionId worker hp
    | turn model sessionId worker answer turn hp | noTurn model sessionId worker hp
    | cut turn worker hp => exact absurd (hpc hc) (by rw [hp]; exact Bool.false_ne_true)
  | gated i c m model stream hc hp | mark i c model stream hc hp
  | acquire i c model stream hc hp
  | reached i c model sessionId stream worker hc hp
  | spawnDrain i c model sessionId worker hc hp | returned i c hc hp
  | stash i c turn worker hc hp | stored i c turn worker committed hc hp =>
    exact absurd (hpc hc) (by rw [hp]; exact Bool.false_ne_true)
  | finish i c pc hc hg hr hover =>
    rw [HandlerPc.holdsGuard_of_isOver (hpc hc)] at hg
    exact absurd hg Bool.false_ne_true
  | disconnect i c hc => exact hupdated (updates_modify hc) (h i c hc)
  | drained i c model sessionId worker why timings turn hc hp
  | drainStash i c turn worker hc hp | drainStored i c turn worker hc hp =>
    exact absurd (hdrain hc) (by rw [hp]; exact Bool.false_ne_true.symm)
  | drainEnded i c t hc hp =>
    rw [hdrain hc] at hp
    exact absurd hp Bool.false_ne_true

/-- The server stops accepting only when the connections have drained. -/
theorem Step.closes {cfg : Config} {s s' : Sup} {a : Act} {ev : List Event}
    (hs : Step cfg s a ev s') (hst : s.StartupOk) (hcl : s.closing → Drained s)
    (h : s.main.accepts = true) (h' : s'.main.accepts = false) : a = .drained := by
  have hsame : s'.main = s.main → a = .drained := by
    intro heq
    rw [heq, h] at h'
    exact absurd h' (by simp)
  have hstartup : ∀ {caller : Spawner} {m : Model} {pc : SpawnPc},
      s.holder = some (.spawn caller m pc) → caller ≠ .startup := by
    rintro caller m pc hc rfl
    rw [(hst m pc hc).2] at h
    exact absurd h Bool.false_ne_true
  cases hs with
  | drained hm hh => rfl
  | finish caller hc =>
    cases caller with
    | shutdown =>
      rcases (hcl (.inr ⟨_, hc⟩)).closed with heq | heq
      · rw [heq] at h
        exact absurd h Bool.false_ne_true
      · rw [heq] at h
        exact absurd h Bool.false_ne_true
    | _ => exact hsame rfl
  | spawnReturn caller m ok pc hc hpc => exact hsame (spawnReturned_main _ _ _ (hstartup hc))
  | failed caller m e hc => exact hsame (spawnReturned_main _ _ _ (hstartup hc))
  | record caller m child pid hc => exact hsame (spawnReturned_main _ _ _ (hstartup hc))
  | count m hc => exact hsame (countStep_frame cfg s m).2.1
  | markShuttingDown hm => exact absurd h' (by simp [Main.accepts])
  | _ => exact hsame rfl

/-! ## What a drain task has lost -/

/-- A drain task exists only where one was, or where the handler is about to start it. -/
theorem DaemonStep.drain_cases {cfg : Config} {d d' : Daemon} {a : DaemonAct}
    {ev : List DaemonEvent} (hs : DaemonStep cfg d a ev d') {i : ℕ} {c' : Completion}
    (hc' : d'.comps[i]? = some c') (hne : c'.drain ≠ .absent) :
    ∃ c, d.comps[i]? = some c ∧
      (c.drain ≠ .absent ∨
        ∃ model sessionId worker, c.pc = .spawnDrain model sessionId worker) := by
  have hupdated : ∀ {j : ℕ} {c x : Completion}, d.comps[j]? = some c →
      Updates d.comps d'.comps j x → (x.drain = c.drain ∨ c.drain.isRunning = true) →
      ∃ c, d.comps[i]? = some c ∧
        (c.drain ≠ .absent ∨
          ∃ model sessionId worker, c.pc = .spawnDrain model sessionId worker) := by
    intro j c x hc hu hdrain
    rcases hu.cases hc' with ⟨rfl, rfl⟩ | ⟨-, hold⟩
    · refine ⟨c, hc, .inl ?_⟩
      rcases hdrain with heq | hrun
      · rwa [← heq]
      · rintro hab
        rw [hab] at hrun
        exact absurd hrun Bool.false_ne_true
    · exact ⟨c', hold, .inl hne⟩
  cases hs with
  | sup a s ev' ha hstep => exact ⟨c', hc', .inl hne⟩
  | call body hacc =>
    rcases getElem?_concat_cases hc' with hold | ⟨-, rfl⟩
    · exact ⟨c', hold, .inl hne⟩
    · exact absurd rfl hne
  | spawnDrain j c model sessionId worker hc hp =>
    have hu : Updates d.comps _ j _ :=
      (updates_modify (f := fun x => x.goto .returning) hc).trans
        (updates_modify (f := fun x => x.drainTo (.draining model sessionId worker))
          (updates_modify hc).self)
    rcases hu.cases hc' with ⟨rfl, -⟩ | ⟨-, hold⟩
    · exact ⟨c, hc, .inr ⟨model, sessionId, worker, hp⟩⟩
    · exact ⟨c', hold, .inl hne⟩
  | drained j c model sessionId worker why timings turn hc hp
  | drainStash j c turn worker hc hp | drainStored j c turn worker hc hp =>
    exact hupdated hc (updates_modify hc) (.inr (by rw [hp]; rfl))
  | drainEnded j c t hc hp => exact hupdated hc (updates_modify hc) (.inr hp)
  | move j c pc hc | gated j c m model stream hc | mark j c model stream hc
  | acquire j c model stream hc
  | reached j c model sessionId stream worker hc | finish j c pc hc | returned j c hc
  | stash j c turn worker hc | stored j c turn worker committed hc | disconnect j c hc =>
    exact hupdated hc (updates_modify hc) (.inl rfl)

/-- A turn is noted as lost when a step loses it. -/
theorem loses_of_mem_noteOf {d : Daemon} {a : DaemonAct} {i : ℕ}
    (h : (i, .lost) ∈ noteOf d a) :
    a.completion? = some i ∧ ∃ c, d.comps[i]? = some c ∧ c.loses a = true := by
  simp only [noteOf, Option.mem_toList, Option.bind_eq_some_iff, Option.map_eq_some_iff] at h
  obtain ⟨j, hj, n, ⟨c, hc, hn⟩, heq⟩ := h
  obtain ⟨rfl, rfl⟩ := Prod.mk.inj heq
  refine ⟨hj, c, hc, ?_⟩
  cases hl : c.loses a with
  | true => rfl
  | false =>
    simp only [Completion.note, hl] at hn
    split at hn
    · next hfalse => exact absurd hfalse Bool.false_ne_true
    · split at hn
      · cases hp : c.pc <;> simp [hp, HandlerPc.nextNote] at hn
      · exact absurd hn (by simp)
      · exact absurd hn (by simp)

/-- A handler that is about to start its task loses nothing. -/
theorem not_loses_of_spawnDrain {cfg : Config} {d d' : Daemon} {a : DaemonAct}
    {ev : List DaemonEvent} {i : ℕ} {c : Completion} {model sessionId : String} {worker : ℕ}
    (hs : daemonStep cfg d a = some (d', ev)) (ha : a.completion? = some i)
    (hc : d.comps[i]? = some c) (hp : c.pc = .spawnDrain model sessionId worker)
    (habsent : c.drain = .absent) : c.loses a = false := by
  cases a with
  | handler j act =>
    obtain rfl : j = i := Option.some.inj ha
    cases act with
    | failed e => simp [daemonStep, handlerStep, hc, hp] at hs
    | bytes answer => simp [daemonStep, handlerStep, hc, hp] at hs
    | cut => simp [daemonStep, handlerStep, hc, hp] at hs
    | _ => rfl
  | drop j =>
    obtain rfl : j = i := Option.some.inj ha
    simp [daemonStep, dropStep, hc, hp, HandlerPc.atAwait] at hs
  | drain j act =>
    obtain rfl : j = i := Option.some.inj ha
    cases act <;> simp [daemonStep, drainStep, hc, habsent] at hs
  | _ => rfl

/-- No drain task has lost its turn. -/
def NothingLost (tr : List (ℕ × Note)) (d : Daemon) : Prop :=
  ∀ (i : ℕ) (c : Completion), d.comps[i]? = some c → c.drain ≠ .absent → (i, .lost) ∉ tr

section Run

variable {cfg : Config} {tr : List (ℕ × Note)} {d : Daemon}

theorem nothingLost_of_run (h : (recording cfg).Run NoneLeftBehind tr d) : NothingLost tr d := by
  refine h.invariant (I := fun tr d => NothingLost tr d) ?_ ?_
  · rintro d ⟨autostart, rfl⟩ i c hc
    exact absurd hc (by simp [Daemon.init])
  intro tr d a d' ev hrun hok hs ih i c' hc' hne hlost
  obtain ⟨rfl, ev', hstep⟩ := observe_step hs
  have hany : (recording cfg).Run Anything tr d := hrun.mono fun _ _ _ _ => trivial
  obtain ⟨tr', hrun'⟩ := hany.of_observe
  have hcomps := completionsOk_of_run hrun'
  obtain ⟨c, hc, hcase⟩ := (daemonStep_cases hstep).drain_cases hc' hne
  rcases List.mem_append.mp hlost with hnow | hbefore
  · -- The step itself cannot lose the turn of a drain task.
    obtain ⟨ha, x, hx, hloses⟩ := loses_of_mem_noteOf hnow
    obtain rfl := Option.some.inj (hc.symm.trans hx)
    rcases hcase with hdrain | ⟨model, sessionId, worker, hp⟩
    · have hpast : c.pc.pastDrain = true := by
        cases hpast : c.pc.pastDrain with
        | true => rfl
        | false => exact absurd ((hcomps i c hc).early hpast) hdrain
      have howes : c.pc.owes = "" := by
        cases hp : c.pc <;> simp_all [HandlerPc.pastDrain, HandlerPc.owes]
      cases a with
      | handler j act =>
        unfold Completion.loses at hloses
        split at hloses <;> simp_all
      | drop j => simp [Completion.loses, howes] at hloses
      | drain j act =>
        obtain rfl : j = i := Option.some.inj ha
        rw [hok c hc] at hloses
        exact absurd hloses Bool.false_ne_true
      | _ => exact absurd hloses Bool.false_ne_true
    · have habsent : c.drain = .absent := (hcomps i c hc).early (by rw [hp]; rfl)
      rw [not_loses_of_spawnDrain hstep ha hc hp habsent] at hloses
      exact absurd hloses Bool.false_ne_true
  · rcases hcase with hdrain | ⟨model, sessionId, worker, hp⟩
    · exact ih i c hc hdrain hbefore
    · -- The handler still owes the turn, so only its arrival has been noted.
      have habsent : c.drain = .absent := (hcomps i c hc).early (by rw [hp]; rfl)
      have hdebt : d.debtOf i = .owed sessionId := by
        rw [Daemon.debtOf, hc, Option.map_some, Option.getD_some, Completion.debt, habsent, hp]
        rfl
      have hnoted := noted_of_run (debt_of_run hany i)
      rw [hdebt] at hnoted
      have hnotes : notesOf i tr = [.arrived sessionId] := hnoted
      rw [← mem_notesOf, hnotes] at hbefore
      exact absurd hbefore (by simp)

/-- Once the server has stopped accepting, everything is over. -/
theorem allOver_of_run (h : (recording cfg).Run NoneLeftBehind tr d)
    (hclosed : d.sup.main.accepts = false) : d.AllOver := by
  have hinv : d.sup.main.accepts = false → d.AllOver := by
    refine h.invariant (I := fun _ d => d.sup.main.accepts = false → d.AllOver) ?_ ?_
    · rintro d ⟨autostart, rfl⟩ _ i c hc
      exact absurd hc (by simp [Daemon.init])
    intro tr d a d' ev hrun hok hs ih hclosed'
    obtain ⟨-, ev', hstep⟩ := observe_step hs
    have hcases := daemonStep_cases hstep
    cases hbefore : d.sup.main.accepts with
    | false => exact hcases.keepsOver hbefore (ih hbefore)
    | true =>
      have hany : (recording cfg).Run Anything tr d := hrun.mono fun _ _ _ _ => trivial
      obtain ⟨tr', hrun'⟩ := hany.of_observe
      have hsup : (supervisor cfg).Run Anything (supTrace tr') d.sup :=
        sup_of_run (fun _ _ => trivial) (fun _ _ _ => trivial)
          (hrun'.mono fun _ _ _ _ _ _ => trivial)
      cases hcases with
      | sup b s evs hadmits hsupstep =>
        have hdrained : b = .drained :=
          (step_cases hsupstep).closes (restartOk_of_run hsup).2 (down_of_run hsup).2.1
            hbefore hclosed'
        subst hdrained
        -- Every exchange is over, and the tasks of those who left have ended.
        intro i c hc
        have hmem : c ∈ d.comps := List.mem_of_getElem? hc
        have hexchanged : c.exchanged = true := List.all_eq_true.mp hadmits c hmem
        simp only [Completion.exchanged, Bool.and_eq_true, Bool.or_eq_true,
          Bool.not_eq_true'] at hexchanged
        refine Completion.isOver_iff.mpr ⟨hexchanged.1, ?_⟩
        rcases hexchanged.2 with hstill | hgone
        · exact hstill
        · exact hok c hmem hgone
      | _ =>
        have hopen : d.sup.main.accepts = false := hclosed'
        rw [hbefore] at hopen
        exact absurd hopen (by simp)
  exact hinv hclosed

end Run

/-! ## Results -/

/-- **No turn is cut off by the final stop**, in every run in which no drain task outlives the
connections or gives up its record. -/
theorem turns_served_before_stop {cfg : Config} {tr : List (ℕ × Note)} {d : Daemon}
    (h : (recording cfg).Run NoneLeftBehind tr d)
    (hmain : d.sup.main = .stopping ∨ d.sup.main = .exited) : TurnsServed tr d := by
  have hclosed : d.sup.main.accepts = false := by
    rcases hmain with heq | heq
    · rw [heq]
      rfl
    · rw [heq]
      rfl
  have hover := allOver_of_run h hclosed
  refine ⟨hover, fun i c sessionId hc hne harrived hsession => ?_⟩
  have hany : (recording cfg).Run Anything tr d := h.mono fun _ _ _ _ => trivial
  have hnoted := noted_of_run (debt_of_run hany i)
  have hdebt : d.debtOf i = .closed := by
    rw [Daemon.debtOf, hc, Option.map_some, Option.getD_some,
      Completion.debt_of_isOver (hover i c hc)]
  have hlost := nothingLost_of_run h i c hc hne
  rw [hdebt] at hnoted
  rw [← mem_notesOf] at harrived hlost ⊢
  rcases hnoted with hnil | hempty | ⟨sid, hattempted | hgone⟩
  · rw [hnil] at harrived
    exact absurd harrived List.not_mem_nil
  · rw [hempty] at harrived
    exact absurd (Note.arrived.inj (List.mem_singleton.mp harrived)) hsession
  · rw [hattempted]
    exact List.mem_cons_self
  · rw [hgone] at hlost
    exact absurd List.mem_cons_self hlost

/-- The worker starts, and the answer of a streamed completion is on its way to its client. -/
def streamingActs : List DaemonAct :=
  List.flatten [(startFully modelA 7).map .sup, passGates 0 streamBody,
    [.handler 0 (.reached 0), .handler 0 .next, .handler 0 .next, .handler 0 .next]]

/-- A signal comes, and the connections drain. -/
def shutdownActs : List DaemonAct := [.sup .markShuttingDown, .sup .drained]

/-- The client leaves, and the task comes to its end before the connections have drained. -/
theorem turns_served_before_stop_drained :
    ∃ tr d, (recording sampleConfig).Run NoneLeftBehind tr d ∧ d.sup.main = .stopping ∧
      (0, .attempted) ∈ tr := by
  obtain ⟨tr, d, h, hp⟩ := Run.reaches (recording sampleConfig) NoneLeftBehind
    (List.flatten [streamingActs, [.disconnect 0, .drain 0 (.stop .eof none), .drain 0 .next,
      .drain 0 (.stored true)], shutdownActs])
    (fun tr d => decide (d.sup.main = .stopping ∧ (0, Note.arrived "s") ∈ tr) &&
      d.comps[0]?.any fun c => c.drain matches .ended) ⟨none, rfl⟩
    (by decide) (by decide)
  simp only [Bool.and_eq_true, decide_eq_true_eq, Option.any_eq_true] at hp
  obtain ⟨⟨hmain, harrived⟩, c, hc, hended⟩ := hp
  have hne : c.drain ≠ .absent := by
    intro habsent
    rw [habsent] at hended
    exact Bool.false_ne_true hended
  exact ⟨tr, d, h, hmain,
    (turns_served_before_stop h (.inl hmain)).handed 0 c "s" hc hne harrived (by simp)⟩

/-- **A drain task outlives the connections**: its client has left, and the worker is stopped
while the task still reads from it. -/
theorem drain_task_left_behind :
    ¬ ∀ (cfg : Config) (tr : List (ℕ × Note)) (d : Daemon),
      (recording cfg).Run Anything tr d → d.sup.main = .stopping ∨ d.sup.main = .exited →
        TurnsServed tr d := by
  intro hall
  obtain ⟨tr, d, h, hp⟩ := Run.reaches (recording sampleConfig) Anything
    (List.flatten [streamingActs, [.disconnect 0], shutdownActs])
    (fun _ d => decide (d.sup.main = .stopping) && d.comps[0]?.any fun c => !c.isOver)
    ⟨none, rfl⟩ (admits_anything _ _ _) (by decide)
  simp only [Bool.and_eq_true, decide_eq_true_eq, Option.any_eq_true] at hp
  obtain ⟨hmain, c, hc, hrunning⟩ := hp
  have hover := (hall _ tr d h (.inl hmain)).ended 0 c hc
  rw [hover] at hrunning
  exact absurd hrunning Bool.false_ne_true

end LlmCtl
