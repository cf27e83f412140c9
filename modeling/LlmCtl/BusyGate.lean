/-
# One turn at a time?

`InFlight` is meant to keep out every other completion until a turn is over.  For a plain
completion the handler holds the guard to the end.  For a streamed one the guard is a
parameter of `stream_and_record`, which the spawned task does not name: it is dropped
when that function returns, while the task drains on.  In every run in which no handler
returns from `stream_and_record` before its task has finished, turns exclude each other
and every guard lives as long as its turn.
-/
import LlmCtl.DaemonStep

namespace LlmCtl

open EventSystem ListTable

/-! ## The property -/

/-- Is the turn of completion `i` open: has it acquired the gate, and is it not over? -/
def turnOpen : List DaemonEvent → ℕ → Bool
  | [], _ => false
  | .acquired j :: tr, i => i == j || turnOpen tr i
  | .turnOver j :: tr, i => i != j && turnOpen tr i
  | _ :: tr, i => turnOpen tr i

/-- The event comes at a time when it may: only the completion whose turn is open, if any,
acquires the gate or is sent to the worker, and a guard is dropped after its turn. -/
def RespectsTurns (before : List DaemonEvent) (e : DaemonEvent) : Prop :=
  (∀ j, (e = .acquired j ∨ ∃ model worker, e = .sent j model worker) →
    ∀ i, turnOpen before i = true → i = j) ∧
  ∀ i, e = .released i → turnOpen before i = false

/-- **Turns exclude each other**: while a turn is open no other completion acquires the
gate or is sent to the worker, and its guard is not dropped. -/
def TurnsExclusive : List DaemonEvent → Prop := Each RespectsTurns

/-! ## The condition -/

/-- The completion whose handler goes on by itself. -/
def DaemonAct.goesOn : DaemonAct → Option ℕ
  | .handler i .next => some i
  | _ => none

/-- Is the handler about to return from `stream_and_record`? -/
def HandlerPc.isReturning : HandlerPc → Bool
  | .returning => true
  | _ => false

/-- A handler returns from `stream_and_record` only after its task has finished. -/
def DrainedFirst (_ : List DaemonEvent) (d : Daemon) (a : DaemonAct) : Prop :=
  ∀ i ∈ a.goesOn, ∀ c ∈ d.comps[i]?, c.pc.isReturning = true → c.drain.isRunning = false

instance (tr : List DaemonEvent) (d : Daemon) (a : DaemonAct) :
    Decidable (DrainedFirst tr d a) :=
  inferInstanceAs (Decidable (∀ i ∈ a.goesOn, ∀ c ∈ d.comps[i]?,
    c.pc.isReturning = true → c.drain.isRunning = false))

/-! ## The invariant -/

/-- The drain task exists from `stream_and_record` on, and not before. -/
structure Completion.Ok (c : Completion) : Prop where
  early : c.pc.pastDrain = false → c.drain = .absent
  spawned : c.pc = .returning → c.drain ≠ .absent

/-- The guard has one holder at most, none while the flag is down, and whoever has an open
turn holds it. -/
structure GateOk (tr : List DaemonEvent) (d : Daemon) : Prop where
  unique : ∀ (i j : ℕ) (c c' : Completion), d.comps[i]? = some c → d.comps[j]? = some c' →
    c.pc.holdsGuard = true → c'.pc.holdsGuard = true → i = j
  free : d.busy = false → ∀ (i : ℕ) (c : Completion), d.comps[i]? = some c →
    c.pc.holdsGuard = false
  holder : ∀ i, turnOpen tr i = true → ∃ c, d.comps[i]? = some c ∧ c.pc.holdsGuard = true
  ok : ∀ (i : ℕ) (c : Completion), d.comps[i]? = some c → c.Ok
  ended : ∀ (i : ℕ) (c : Completion), d.comps[i]? = some c → c.drain = .ended →
    turnOpen tr i = false

/-- Events that open or close no turn. -/
def DaemonEvent.isNeutral : DaemonEvent → Bool
  | .acquired _ | .turnOver _ => false
  | _ => true

theorem turnOpen_append {ev tr : List DaemonEvent} (h : ∀ e ∈ ev, e.isNeutral = true) (i : ℕ) :
    turnOpen (ev ++ tr) i = turnOpen tr i := by
  apply ignores_append (f := fun tr => turnOpen tr i)
  intro e he before
  cases e with
  | acquired j => exact absurd (h _ he) (by simp [DaemonEvent.isNeutral])
  | turnOver j => exact absurd (h _ he) (by simp [DaemonEvent.isNeutral])
  | _ => rfl

section Update

variable {tr ev : List DaemonEvent} {d d' : Daemon} {i : ℕ} {c c' : Completion}

/-- A step of one completion that neither takes nor drops the guard and opens no turn. -/
theorem GateOk.kept (h : GateOk tr d) (hc : d.comps[i]? = some c)
    (hu : Updates d.comps d'.comps i c') (hbusy : d'.busy = d.busy)
    (hguard : c'.pc.holdsGuard = c.pc.holdsGuard) (hok : c'.Ok)
    (hopen : ∀ j, turnOpen (ev ++ tr) j = true → turnOpen tr j = true)
    (hended : c'.drain = .ended → turnOpen (ev ++ tr) i = false) : GateOk (ev ++ tr) d' where
  unique := by
    intro j k x y hx hy hgx hgy
    rcases hu.cases hx with ⟨rfl, rfl⟩ | ⟨-, hx'⟩
    · rcases hu.cases hy with ⟨rfl, rfl⟩ | ⟨-, hy'⟩
      · rfl
      · exact h.unique _ _ c y hc hy' (hguard ▸ hgx) hgy
    · rcases hu.cases hy with ⟨rfl, rfl⟩ | ⟨-, hy'⟩
      · exact h.unique _ _ x c hx' hc hgx (hguard ▸ hgy)
      · exact h.unique _ _ x y hx' hy' hgx hgy
  free := by
    intro hb j x hx
    rw [hbusy] at hb
    rcases hu.cases hx with ⟨rfl, rfl⟩ | ⟨-, hx'⟩
    · rw [hguard]
      exact h.free hb _ c hc
    · exact h.free hb j x hx'
  holder := by
    intro j hj
    obtain ⟨x, hx, hgx⟩ := h.holder j (hopen j hj)
    by_cases hji : j = i
    · subst hji
      obtain rfl : c = x := Option.some.inj (hc.symm.trans hx)
      exact ⟨c', hu.self, by rw [hguard, hgx]⟩
    · exact ⟨x, by rw [hu.other j hji, hx], hgx⟩
  ok := by
    intro j x hx
    rcases hu.cases hx with ⟨rfl, rfl⟩ | ⟨-, hx'⟩
    · exact hok
    · exact h.ok j x hx'
  ended := by
    intro j x hx he
    rcases hu.cases hx with ⟨rfl, rfl⟩ | ⟨-, hx'⟩
    · exact hended he
    · cases hj : turnOpen (ev ++ tr) j with
      | false => rfl
      | true =>
        have hbefore := h.ended j x hx' he
        rw [hopen j hj] at hbefore
        exact absurd hbefore (by simp)

/-- The same for neutral events and a drain task that does not end. -/
theorem GateOk.neutral (h : GateOk tr d) (hc : d.comps[i]? = some c)
    (hu : Updates d.comps d'.comps i c') (hbusy : d'.busy = d.busy)
    (hguard : c'.pc.holdsGuard = c.pc.holdsGuard) (hok : c'.Ok)
    (hev : ∀ e ∈ ev, e.isNeutral = true) (hdrain : c'.drain = .ended → c.drain = .ended) :
    GateOk (ev ++ tr) d' := by
  refine h.kept hc hu hbusy hguard hok (fun j hj => ?_) fun he => ?_
  · rwa [turnOpen_append hev] at hj
  · rw [turnOpen_append hev]
    exact h.ended i c hc (hdrain he)

/-- The holder drops the guard when its turn is over. -/
theorem GateOk.dropped (h : GateOk tr d) (hc : d.comps[i]? = some c)
    (hu : Updates d.comps d'.comps i c') (hg : c.pc.holdsGuard = true)
    (hg' : c'.pc.holdsGuard = false) (hok : c'.Ok)
    (hopen : ∀ j, turnOpen (ev ++ tr) j = true → j ≠ i ∧ turnOpen tr j = true) :
    GateOk (ev ++ tr) d' := by
  -- The guard had no other holder, so nobody holds it now and no turn is open.
  have hnone : ∀ (j : ℕ) (x : Completion), d'.comps[j]? = some x → x.pc.holdsGuard = false := by
    intro j x hx
    rcases hu.cases hx with ⟨rfl, rfl⟩ | ⟨hji, hx'⟩
    · exact hg'
    · cases hgx : x.pc.holdsGuard with
      | false => rfl
      | true => exact absurd (h.unique j i x c hx' hc hgx hg) hji
  have hclosed : ∀ j, turnOpen (ev ++ tr) j = false := by
    intro j
    cases hj : turnOpen (ev ++ tr) j with
    | false => rfl
    | true =>
      obtain ⟨hji, hbefore⟩ := hopen j hj
      obtain ⟨x, hx, hgx⟩ := h.holder j hbefore
      exact absurd (h.unique j i x c hx hc hgx hg) hji
  exact
    { unique := fun j k x y hx hy hgx _ => by
        rw [hnone j x hx] at hgx
        exact absurd hgx (by simp)
      free := fun _ => hnone
      holder := fun j hj => by
        rw [hclosed j] at hj
        exact absurd hj (by simp)
      ok := fun j x hx => by
        rcases hu.cases hx with ⟨rfl, rfl⟩ | ⟨-, hx'⟩
        · exact hok
        · exact h.ok j x hx'
      ended := fun j x _ _ => hclosed j }

/-- A completion takes the free guard. -/
theorem GateOk.taken (h : GateOk tr d) (hc : d.comps[i]? = some c) (hb : d.busy = false)
    (hu : Updates d.comps d'.comps i c') (hbusy : d'.busy = true)
    (hg' : c'.pc.holdsGuard = true) (hok : c'.Ok) (habsent : c'.drain = .absent) :
    GateOk (.acquired i :: tr) d' := by
  have hclosed : ∀ j, turnOpen tr j = false := by
    intro j
    cases hj : turnOpen tr j with
    | false => rfl
    | true =>
      obtain ⟨x, hx, hgx⟩ := h.holder j hj
      rw [h.free hb j x hx] at hgx
      exact absurd hgx (by simp)
  have honly : ∀ (j : ℕ) (x : Completion), d'.comps[j]? = some x → x.pc.holdsGuard = true →
      j = i := by
    intro j x hx hgx
    rcases hu.cases hx with ⟨rfl, -⟩ | ⟨-, hx'⟩
    · rfl
    · rw [h.free hb j x hx'] at hgx
      exact absurd hgx (by simp)
  exact
    { unique := fun j k x y hx hy hgx hgy => (honly j x hx hgx).trans (honly k y hy hgy).symm
      free := fun hf => by
        rw [hbusy] at hf
        exact absurd hf (by simp)
      holder := fun j hj => by
        have hji : j = i := by simpa [turnOpen, hclosed j] using hj
        subst hji
        exact ⟨c', hu.self, hg'⟩
      ok := fun j x hx => by
        rcases hu.cases hx with ⟨rfl, rfl⟩ | ⟨-, hx'⟩
        · exact hok
        · exact h.ok j x hx'
      ended := fun j x hx he => by
        rcases hu.cases hx with ⟨rfl, rfl⟩ | ⟨hji, hx'⟩
        · rw [habsent] at he
          exact absurd he (by simp)
        · simp [turnOpen, hji, hclosed j] }

/-- A step that touches no completion and neither takes nor drops the guard. -/
theorem GateOk.outside (h : GateOk tr d) (hcomps : d'.comps = d.comps) (hbusy : d'.busy = d.busy)
    (hev : ∀ e ∈ ev, e.isNeutral = true) : GateOk (ev ++ tr) d' where
  unique := by
    rw [hcomps]
    exact h.unique
  free := by
    rw [hcomps, hbusy]
    exact h.free
  holder := by
    intro j hj
    rw [turnOpen_append hev] at hj
    rw [hcomps]
    exact h.holder j hj
  ok := by
    rw [hcomps]
    exact h.ok
  ended := by
    intro j x hx he
    rw [hcomps] at hx
    rw [turnOpen_append hev]
    exact h.ended j x hx he

end Update

/-- A new completion holds nothing. -/
theorem GateOk.called {tr : List DaemonEvent} {d : Daemon} (h : GateOk tr d) (body : Body) :
    GateOk tr { d with comps := d.comps ++ [.new body] } where
  unique := by
    intro j k x y hx hy hgx hgy
    rcases getElem?_concat_cases hx with hx' | ⟨-, rfl⟩
    · rcases getElem?_concat_cases hy with hy' | ⟨-, rfl⟩
      · exact h.unique j k x y hx' hy' hgx hgy
      · exact absurd hgy Bool.false_ne_true
    · exact absurd hgx Bool.false_ne_true
  free := by
    intro hb j x hx
    rcases getElem?_concat_cases hx with hx' | ⟨-, rfl⟩
    · exact h.free hb j x hx'
    · rfl
  holder := by
    intro j hj
    obtain ⟨x, hx, hgx⟩ := h.holder j hj
    exact ⟨x, getElem?_concat_of_some hx, hgx⟩
  ok := by
    intro j x hx
    rcases getElem?_concat_cases hx with hx' | ⟨-, rfl⟩
    · exact h.ok j x hx'
    · exact ⟨fun _ => rfl, by simp [Completion.new]⟩
  ended := by
    intro j x hx he
    rcases getElem?_concat_cases hx with hx' | ⟨-, rfl⟩
    · exact h.ended j x hx' he
    · exact absurd he (by simp [Completion.new])

/-! ## Every step keeps it -/

/-- The handler goes on before the drain task exists, or ends. -/
theorem Completion.Ok.goto {c : Completion} (h : c.Ok) {pc : HandlerPc}
    (hp : c.pc.pastDrain = false ∨ pc.isOver = true) (hr : pc ≠ .returning) : (c.goto pc).Ok where
  early := by
    intro hpast
    rcases hp with hp | hover
    · exact h.early hp
    · cases pc <;> simp_all [HandlerPc.isOver, HandlerPc.pastDrain]
  spawned := fun hret => absurd hret hr

/-- The drain task goes on or ends. -/
theorem Completion.Ok.drainTo {c : Completion} (h : c.Ok) {t : DrainPc}
    (hrun : c.drain.isRunning = true) (ht : t ≠ .absent) : (c.drainTo t).Ok where
  early := by
    intro hpast
    rw [h.early hpast] at hrun
    exact absurd hrun Bool.false_ne_true
  spawned := fun _ => ht

theorem HandlerMove.ok {d : Daemon} {c : Completion} {pc : HandlerPc} (hm : HandlerMove d c pc)
    (h : c.Ok) : (c.goto pc).Ok := by
  apply h.goto
  · cases hm with
    | ended _ hg hover => exact .inr hover
    | read m stream hp | resolved model sessionId stream hp | headStream model sessionId worker hp
    | headPlain model sessionId worker hp | turn model sessionId worker answer turn hp
    | noTurn model sessionId worker hp | cut turn worker hp =>
      left
      rw [hp]
      rfl
  · rintro rfl
    cases hm with
    | ended _ hg hover => exact absurd hover Bool.false_ne_true

theorem HandlerMove.holdsGuard {d : Daemon} {c : Completion} {pc : HandlerPc}
    (hm : HandlerMove d c pc) : pc.holdsGuard = c.pc.holdsGuard := by
  cases hm with
  | ended _ hg hover =>
    rw [hg]
    cases pc <;> simp_all [HandlerPc.isOver, HandlerPc.holdsGuard]
  | read m stream hp | resolved model sessionId stream hp | headStream model sessionId worker hp
  | headPlain model sessionId worker hp | turn model sessionId worker answer turn hp
  | noTurn model sessionId worker hp | cut turn worker hp =>
    rw [hp]
    rfl

/-- A handler that returns under the condition has a finished turn: its task was spawned and
no longer runs. -/
theorem GateOk.turn_closed {tr : List DaemonEvent} {d : Daemon} {i : ℕ} {c : Completion}
    (h : GateOk tr d) (hok : DrainedFirst tr d (.handler i .next)) (hc : d.comps[i]? = some c)
    (hp : c.pc = .returning) : turnOpen tr i = false := by
  have hstill : c.drain.isRunning = false :=
    hok i rfl c hc (by rw [hp]; rfl)
  have hspawned : c.drain ≠ .absent := (h.ok i c hc).spawned hp
  refine h.ended i c hc ?_
  cases hd : c.drain with
  | absent => exact absurd hd hspawned
  | ended => rfl
  | draining | stash | store =>
    rw [hd] at hstill
    exact absurd hstill (by simp [DrainPc.isRunning])

/-- **Every step that the condition allows keeps the invariant.** -/
theorem DaemonStep.gateOk {cfg : Config} {d d' : Daemon} {a : DaemonAct}
    {tr ev : List DaemonEvent} (hs : DaemonStep cfg d a ev d') (hok : DrainedFirst tr d a)
    (h : GateOk tr d) : GateOk (ev ++ tr) d' := by
  cases hs with
  | sup a s ev' ha hstep =>
    refine h.outside rfl rfl fun e he => ?_
    obtain ⟨e', -, rfl⟩ := List.mem_map.mp he
    rfl
  | call body hacc => exact h.called body
  | move i c pc hc hm =>
    exact h.neutral hc (updates_modify hc) rfl hm.holdsGuard (hm.ok (h.ok i c hc)) (by simp) id
  | gated i c m model stream hc hp hg =>
    exact h.neutral hc (updates_modify hc) rfl (by rw [hp]; rfl)
      ((h.ok i c hc).goto (.inl (by rw [hp]; rfl)) (by simp)) (by simp [DaemonEvent.isNeutral]) id
  | mark i c model stream hc hp =>
    exact h.neutral hc (updates_modify hc) rfl (by rw [hp]; rfl)
      ((h.ok i c hc).goto (.inl (by rw [hp]; rfl)) (by simp)) (by simp) id
  | acquire i c model stream hc hp hb =>
    have hok' := h.ok i c hc
    exact h.taken hc hb (updates_modify hc) rfl rfl
      (hok'.goto (.inl (by rw [hp]; rfl)) (by simp)) (hok'.early (by rw [hp]; rfl))
  | reached i c model sessionId stream worker hc hp hl =>
    exact h.neutral hc (updates_modify hc) rfl (by rw [hp]; rfl)
      ((h.ok i c hc).goto (.inl (by rw [hp]; rfl)) (by simp))
      (by simp [DaemonEvent.isNeutral]) id
  | finish i c pc hc hg hr hover =>
    have hne : pc ≠ .returning := by
      intro heq
      rw [heq] at hover
      exact absurd hover Bool.false_ne_true
    refine h.dropped hc (updates_modify hc) hg ?_ ((h.ok i c hc).goto (.inr hover) hne) ?_
    · cases pc <;> simp_all [HandlerPc.isOver, HandlerPc.holdsGuard]
    · intro j hj
      simpa [turnOpen] using hj
  | spawnDrain i c model sessionId worker hc hp =>
    have hu : Updates d.comps _ i _ :=
      (updates_modify (f := fun x => x.goto .returning) hc).trans
        (updates_modify (f := fun x => x.drainTo (.draining model sessionId worker))
          (updates_modify hc).self)
    refine h.neutral hc hu rfl (by rw [hp]; rfl) ⟨fun hpast => ?_, by simp⟩ (by simp) (by simp)
    exact absurd hpast (by simp [HandlerPc.pastDrain])
  | returned i c hc hp =>
    -- The only step that drops a guard without ending a turn.
    refine h.dropped hc (updates_modify hc) (by rw [hp]; rfl) rfl
      ((h.ok i c hc).goto (.inr rfl) (by simp)) fun j hj => ?_
    have hclosed : turnOpen tr i = false := h.turn_closed hok hc hp
    have hj' : turnOpen tr j = true := hj
    refine ⟨fun hji => ?_, hj'⟩
    rw [hji, hclosed] at hj'
    exact absurd hj' Bool.false_ne_true
  | stash i c turn worker hc hp =>
    exact h.neutral hc (updates_modify hc) rfl (by rw [hp]; rfl)
      ((h.ok i c hc).goto (.inl (by rw [hp]; rfl)) (by simp)) (by simp) id
  | stored i c turn worker committed hc hp =>
    refine h.neutral hc (updates_modify hc) rfl (by rw [hp]; rfl)
      ((h.ok i c hc).goto (.inl (by rw [hp]; rfl)) (by simp)) ?_ id
    cases committed <;> simp [DaemonEvent.isNeutral]
  | disconnect i c hc =>
    have hold := h.ok i c hc
    exact h.neutral hc (updates_modify hc) rfl rfl ⟨hold.early, hold.spawned⟩ (by simp) id
  | drained i c model sessionId worker why timings turn hc hp ht =>
    exact h.neutral hc (updates_modify hc) rfl rfl
      ((h.ok i c hc).drainTo (by rw [hp]; rfl) (by simp)) (by simp) (by simp)
  | drainStash i c turn worker hc hp =>
    exact h.neutral hc (updates_modify hc) rfl rfl
      ((h.ok i c hc).drainTo (by rw [hp]; rfl) (by simp)) (by simp) (by simp)
  | drainEnded i c t hc hp =>
    refine h.kept hc (updates_modify hc) rfl rfl ((h.ok i c hc).drainTo hp (by simp)) ?_ ?_
    · intro j hj
      simp only [List.cons_append, List.nil_append, turnOpen, Bool.and_eq_true] at hj
      exact hj.2
    · intro _
      simp [turnOpen]
  | drainStored i c turn worker hc hp =>
    refine h.kept hc (updates_modify hc) rfl rfl
      ((h.ok i c hc).drainTo (by rw [hp]; rfl) (by simp)) ?_ ?_
    · intro j hj
      simp only [List.cons_append, List.nil_append, turnOpen, Bool.and_eq_true] at hj
      exact hj.2
    · intro _
      simp [turnOpen]

/-- **The invariant** holds in every run that the condition allows. -/
theorem gateOk_of_run {cfg : Config} {tr : List DaemonEvent} {d : Daemon}
    (h : (daemon cfg).Run DrainedFirst tr d) : GateOk tr d := by
  refine h.invariant (I := GateOk) ?_ ?_
  · rintro d ⟨autostart, rfl⟩
    exact
      { unique := fun i j c c' hc => absurd hc (by simp [Daemon.init])
        free := fun _ i c hc => absurd hc (by simp [Daemon.init])
        holder := fun i hi => absurd hi (by simp [turnOpen])
        ok := fun i c hc => absurd hc (by simp [Daemon.init])
        ended := fun i c hc => absurd hc (by simp [Daemon.init]) }
  · intro tr d a d' ev _ hok hs hgate
    exact (daemonStep_cases hs).gateOk hok hgate

/-! ## Results -/

/-- Does the event take part in the property? -/
def DaemonEvent.isGated : DaemonEvent → Bool
  | .acquired _ | .sent _ _ _ | .released _ => true
  | _ => false

theorem respectsTurns_of_not_gated {before : List DaemonEvent} {e : DaemonEvent}
    (h : e.isGated = false) : RespectsTurns before e := by
  constructor
  · rintro j (rfl | ⟨model, worker, rfl⟩)
    · exact absurd h (by simp [DaemonEvent.isGated])
    · exact absurd h (by simp [DaemonEvent.isGated])
  · rintro i rfl
    exact absurd h (by simp [DaemonEvent.isGated])

/-- What an allowed step emits respects the turns. -/
theorem DaemonStep.turnsExclusive {cfg : Config} {d d' : Daemon} {a : DaemonAct}
    {tr ev : List DaemonEvent} (hs : DaemonStep cfg d a ev d') (hok : DrainedFirst tr d a)
    (h : GateOk tr d) (ht : TurnsExclusive tr) : TurnsExclusive (ev ++ tr) := by
  cases hs with
  | acquire i c model stream hc hp hb =>
    refine ⟨⟨fun j _ k hk => ?_, by simp⟩, ht⟩
    -- The flag is down, so nobody holds the guard and no turn is open.
    obtain ⟨x, hx, hgx⟩ := h.holder k hk
    rw [h.free hb k x hx] at hgx
    exact absurd hgx Bool.false_ne_true
  | reached i c model sessionId stream worker hc hp hl =>
    refine ⟨⟨fun j hj k hk => ?_, by simp⟩, ht⟩
    obtain rfl : i = j := by simpa using hj
    obtain ⟨x, hx, hgx⟩ := h.holder k hk
    exact h.unique k i x c hx hc hgx (by rw [hp]; rfl)
  | finish i c pc hc hg hr hover =>
    refine ⟨⟨by simp, fun j hj => ?_⟩, respectsTurns_of_not_gated rfl, ht⟩
    obtain rfl : i = j := by simpa using hj
    simp [turnOpen]
  | returned i c hc hp =>
    refine ⟨⟨by simp, fun j hj => ?_⟩, ht⟩
    obtain rfl : i = j := by simpa using hj
    exact h.turn_closed hok hc hp
  | sup a s ev' ha hstep =>
    refine Each.append ht fun e he before => ?_
    obtain ⟨e', -, rfl⟩ := List.mem_map.mp he
    exact respectsTurns_of_not_gated rfl
  | stored i c turn worker committed hc hp =>
    refine Each.append ht fun e he before => respectsTurns_of_not_gated ?_
    cases committed with
    | true =>
      obtain rfl : e = .recorded i turn worker := by simpa using he
      rfl
    | false => exact absurd he (by simp)
  | gated i c m model stream hc hp hg => exact ⟨respectsTurns_of_not_gated rfl, ht⟩
  | drainEnded i c t hc hp => exact ⟨respectsTurns_of_not_gated rfl, ht⟩
  | drainStored i c turn worker hc hp =>
    exact ⟨respectsTurns_of_not_gated rfl, respectsTurns_of_not_gated rfl, ht⟩
  | _ => exact ht

/-- **Turns exclude each other** in every run in which no handler returns from
`stream_and_record` while its task is running. -/
theorem turns_exclusive_of_drained_first {cfg : Config} {tr : List DaemonEvent} {d : Daemon}
    (h : (daemon cfg).Run DrainedFirst tr d) : TurnsExclusive tr := by
  refine h.each ?_
  intro tr d a d' ev hrun hok hs ht
  exact (daemonStep_cases hs).turnsExclusive hok (gateOk_of_run hrun) ht

/-- A streamed completion that is drained before its handler returns, and a plain one after
it; both turns come to their end. -/
theorem turns_exclusive_of_drained_first_two :
    ∃ tr d, (daemon sampleConfig).Run DrainedFirst tr d ∧
      .turnOver 0 ∈ tr ∧ .turnOver 1 ∈ tr ∧ TurnsExclusive tr := by
  have hreach := Run.reaches (daemon sampleConfig) DrainedFirst
    (List.flatten [(startFully modelA 7).map .sup, passGates 0 streamBody,
      [.handler 0 (.reached 0), .handler 0 .next, .handler 0 .next,
        .drain 0 (.stop .eof none), .drain 0 .next, .drain 0 (.stored true),
        .handler 0 .next], passGates 1 plainBody,
      [.handler 1 (.reached 0), .handler 1 .next, .handler 1 (.failed "reset")]])
    (fun tr _ => DaemonEvent.turnOver 0 ∈ tr ∧ DaemonEvent.turnOver 1 ∈ tr) ⟨none, rfl⟩
    (by decide) (by decide)
  obtain ⟨tr, d, hrun, hp⟩ := hreach
  obtain ⟨hfirst, hsecond⟩ := of_decide_eq_true hp
  exact ⟨tr, d, hrun, hfirst, hsecond, turns_exclusive_of_drained_first hrun⟩

/-- **Overlapping turns**: the handler of a streamed completion returns, its task drains on,
and a second completion acquires the gate and is sent to the worker. -/
theorem streamed_turn_overlaps :
    ∃ tr d, (daemon sampleConfig).Run Anything tr d ∧ ¬ TurnsExclusive tr := by
  have hreach := Run.reaches (daemon sampleConfig) Anything
    (List.flatten [(startFully modelA 7).map .sup, passGates 0 streamBody,
      [.handler 0 (.reached 0), .handler 0 .next, .handler 0 .next, .handler 0 .next],
      passGates 1 plainBody, [.handler 1 (.reached 0)]])
    (fun tr _ => lastSatisfies (fun before e => e = .sent 1 "a" 0 ∧ turnOpen before 0 = true) tr)
    ⟨none, rfl⟩ (admits_anything _ _ _) (by decide)
  obtain ⟨tr, d, hrun, hlast⟩ := hreach
  refine ⟨tr, d, hrun, not_each_of_last hlast fun before e he hrespects => ?_⟩
  obtain ⟨hsent, hopen⟩ := of_decide_eq_true he
  exact absurd (hrespects.1 1 (.inr ⟨"a", 0, hsent⟩) 0 hopen) (by decide)

end LlmCtl
