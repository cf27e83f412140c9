/-
# The busy flag never wedges (`proxy.rs`)

`InFlight::acquire` raises the flag with `compare_exchange` and builds the guard only on
success; `Drop` lowers the flag.  A handler owns its guard from the busy gate to the end of its
frame, however the frame ends: it returns, its future is dropped at an await, or it panics.
The task of a streamed completion owns none.

The daemon is a `RaiiFlag`: each of its steps is one of the flag's, or leaves flag and guards
alone.
-/
import LlmCtl.BusyGate
import LlmCtl.RaiiFlag

namespace LlmCtl

open EventSystem ListTable RaiiFlag

/-! ## Panics -/

/-- What happens in a daemon whose handlers and drain tasks may panic anywhere. -/
inductive PanickyAct where
  | daemon (a : DaemonAct)
  /-- Handler `i` panics. -/
  | handler (i : ℕ)
  /-- The drain task of completion `i` panics. -/
  | drain (i : ℕ)

/-- The handler unwinds: its frame is dropped, with the guard if it owns one.  A drain task that
it has started runs on. -/
def unwindHandler (d : Daemon) (i : ℕ) (c : Completion) : Option (Daemon × List DaemonEvent) :=
  if c.pc.isOver then none
  else if c.pc.holdsGuard then
    some (d.unlock.setPc i .dropped,
      if c.pc.isReturning then [.released i] else [.released i, .turnOver i])
  else some (d.setPc i .dropped, [])

/-- The drain task unwinds. -/
def unwindDrain (d : Daemon) (i : ℕ) (c : Completion) : Option (Daemon × List DaemonEvent) :=
  if c.drain.isRunning then some (d.setDrain i .ended, [.turnOver i]) else none

def panickyStep (cfg : Config) (d : Daemon) : PanickyAct → Option (Daemon × List DaemonEvent)
  | .daemon a => daemonStep cfg d a
  | .handler i =>
    match d.comps[i]? with
    | some c => unwindHandler d i c
    | none => none
  | .drain i =>
    match d.comps[i]? with
    | some c => unwindDrain d i c
    | none => none

/-- The daemon with panics. -/
def panickyDaemon (cfg : Config) : EventSystem Daemon PanickyAct DaemonEvent where
  init := fun d => ∃ autostart, d = Daemon.init autostart
  step := panickyStep cfg

/-! ## The daemon as a flag with guards -/

/-- An `InFlight` guard exists in the frame of handler `i`. -/
def Daemon.HasGuard (d : Daemon) (i : ℕ) : Prop :=
  ∃ c, d.comps[i]? = some c ∧ c.pc.holdsGuard = true

/-- The flag and the guards of the daemon. -/
def Daemon.flag (d : Daemon) : Flag where
  up := d.busy
  owns := d.comps.map fun c => c.pc.holdsGuard

theorem Daemon.flag_owns_iff (d : Daemon) (i : ℕ) : d.flag.Owns i ↔ d.HasGuard i := by
  rw [Flag.Owns, Daemon.flag, List.getElem?_map, Option.map_eq_some_iff, Daemon.HasGuard]

section View

variable {d d' : Daemon} {i : ℕ} {c c' : Completion}

theorem Daemon.flag_getElem? (hc : d.comps[i]? = some c) :
    d.flag.owns[i]? = some c.pc.holdsGuard := by
  rw [Daemon.flag, List.getElem?_map, hc]
  rfl

/-- The guards after a step of completion `i`. -/
theorem Daemon.flag_of_updates (hc : d.comps[i]? = some c)
    (hu : Updates d.comps d'.comps i c') :
    d'.flag = ⟨d'.busy, d.flag.owns.modify i fun _ => c'.pc.holdsGuard⟩ := by
  have hcomps : d'.comps = d.comps.modify i fun _ => c' := hu.eq_modify hc
  rw [Daemon.flag, hcomps, map_modify hc]
  rfl

/-- A step of completion `i` that leaves the flag and the guards alone. -/
theorem Daemon.flag_kept (hc : d.comps[i]? = some c) (hu : Updates d.comps d'.comps i c')
    (hbusy : d'.busy = d.busy) (hguard : c'.pc.holdsGuard = c.pc.holdsGuard) :
    d'.flag = d.flag := by
  rw [Daemon.flag_of_updates hc hu, hbusy, hguard, modify_of_eq (Daemon.flag_getElem? hc)]
  rfl

/-- The frame of the handler that owns the guard is dropped. -/
theorem Daemon.flag_dropped (hc : d.comps[i]? = some c) (hg : c.pc.holdsGuard = true)
    (hu : Updates d.comps d'.comps i c') (hbusy : d'.busy = false)
    (hguard : c'.pc.holdsGuard = false) :
    flagStep d.flag (.drop i) = some (d'.flag, []) := by
  have hi : d.flag.owns[i]? = some true := by rw [Daemon.flag_getElem? hc, hg]
  rw [Daemon.flag_of_updates hc hu, hbusy, hguard]
  simp only [flagStep, hi]

/-- A handler passes the busy gate. -/
theorem Daemon.flag_taken (hc : d.comps[i]? = some c) (hg : c.pc.holdsGuard = false)
    (hb : d.busy = false) (hu : Updates d.comps d'.comps i c') (hbusy : d'.busy = true)
    (hguard : c'.pc.holdsGuard = true) :
    flagStep d.flag (.acquire i) = some (d'.flag, []) := by
  have hi : d.flag.owns[i]? = some false := by rw [Daemon.flag_getElem? hc, hg]
  rw [flagStep_acquire_lowered hb hi, Daemon.flag_of_updates hc hu, hbusy, hguard]

end View

/-- A handler that has ended owns nothing. -/
theorem HandlerPc.holdsGuard_of_isOver {pc : HandlerPc} (h : pc.isOver = true) :
    pc.holdsGuard = false := by
  cases pc with
  | replied _ => rfl
  | dropped => rfl
  | _ => exact absurd h Bool.false_ne_true

/-- **A step of the daemon is a step of its flag**, or leaves flag and guards alone. -/
theorem DaemonStep.flag {cfg : Config} {d d' : Daemon} {a : DaemonAct} {ev : List DaemonEvent}
    (hs : DaemonStep cfg d a ev d') :
    d'.flag = d.flag ∨ ∃ b, flagStep d.flag b = some (d'.flag, []) := by
  cases hs with
  | sup a s ev' ha hstep => exact .inl rfl
  | call body hacc =>
    refine .inr ⟨.join, ?_⟩
    rw [flagStep, Daemon.flag, Daemon.flag, List.map_append]
    rfl
  | move i c pc hc hm => exact .inl (Daemon.flag_kept hc (updates_modify hc) rfl hm.holdsGuard)
  | gated i c m model stream hc hp hg =>
    exact .inl (Daemon.flag_kept hc (updates_modify hc) rfl (by rw [hp]; rfl))
  | mark i c model stream hc hp =>
    exact .inl (Daemon.flag_kept hc (updates_modify hc) rfl (by rw [hp]; rfl))
  | acquire i c model stream hc hp hb =>
    have hg : c.pc.holdsGuard = false := by rw [hp]; rfl
    exact .inr ⟨.acquire i, Daemon.flag_taken hc hg hb (updates_modify hc) rfl rfl⟩
  | reached i c model sessionId stream worker hc hp hl =>
    exact .inl (Daemon.flag_kept hc (updates_modify hc) rfl (by rw [hp]; rfl))
  | finish i c pc hc hg hr hover =>
    exact .inr ⟨.drop i, Daemon.flag_dropped hc hg (updates_modify hc) rfl
      (HandlerPc.holdsGuard_of_isOver hover)⟩
  | spawnDrain i c model sessionId worker hc hp =>
    have hu : Updates d.comps _ i _ :=
      (updates_modify (f := fun x => x.goto .returning) hc).trans
        (updates_modify (f := fun x => x.drainTo (.draining model sessionId worker))
          (updates_modify hc).self)
    exact .inl (Daemon.flag_kept hc hu rfl (by rw [hp]; rfl))
  | returned i c hc hp =>
    have hg : c.pc.holdsGuard = true := by rw [hp]; rfl
    exact .inr ⟨.drop i, Daemon.flag_dropped hc hg (updates_modify hc) rfl rfl⟩
  | stash i c turn worker hc hp =>
    exact .inl (Daemon.flag_kept hc (updates_modify hc) rfl (by rw [hp]; rfl))
  | stored i c turn worker committed hc hp =>
    exact .inl (Daemon.flag_kept hc (updates_modify hc) rfl (by rw [hp]; rfl))
  | disconnect i c hc => exact .inl (Daemon.flag_kept hc (updates_modify hc) rfl rfl)
  | drained i c model sessionId worker why timings turn hc hp ht =>
    exact .inl (Daemon.flag_kept hc (updates_modify hc) rfl rfl)
  | drainStash i c turn worker hc hp =>
    exact .inl (Daemon.flag_kept hc (updates_modify hc) rfl rfl)
  | drainEnded i c t hc hp => exact .inl (Daemon.flag_kept hc (updates_modify hc) rfl rfl)
  | drainStored i c turn worker hc hp =>
    exact .inl (Daemon.flag_kept hc (updates_modify hc) rfl rfl)

/-- The same for a panic. -/
theorem panickyStep_flag {cfg : Config} {d d' : Daemon} {a : PanickyAct} {ev : List DaemonEvent}
    (h : panickyStep cfg d a = some (d', ev)) :
    d'.flag = d.flag ∨ ∃ b, flagStep d.flag b = some (d'.flag, []) := by
  cases a with
  | daemon a => exact (daemonStep_cases h).flag
  | handler i =>
    simp only [panickyStep] at h
    split at h
    · next c hc =>
      unfold unwindHandler at h
      split at h
      · exact absurd h (by simp)
      · split at h
        · next hg =>
          obtain ⟨rfl, -⟩ := Prod.mk.inj (Option.some.inj h)
          exact .inr ⟨.drop i, Daemon.flag_dropped hc hg (updates_modify hc) rfl rfl⟩
        · next hg =>
          obtain ⟨rfl, -⟩ := Prod.mk.inj (Option.some.inj h)
          have hnone : c.pc.holdsGuard = false := by simpa using hg
          exact .inl (Daemon.flag_kept hc (updates_modify hc) rfl hnone.symm)
    · exact absurd h (by simp)
  | drain i =>
    simp only [panickyStep] at h
    split at h
    · next c hc =>
      unfold unwindDrain at h
      split at h
      · obtain ⟨rfl, -⟩ := Prod.mk.inj (Option.some.inj h)
        exact .inl (Daemon.flag_kept hc (updates_modify hc) rfl rfl)
      · exact absurd h (by simp)
    · exact absurd h (by simp)

/-- A run of the daemon is a run of its flag. -/
theorem flag_of_run {cfg : Config} {tr : List DaemonEvent} {d : Daemon}
    (h : (panickyDaemon cfg).Run Anything tr d) : flags.Run Anything [] d.flag := by
  refine h.project Daemon.flag (fun _ => []) rfl (fun _ _ => rfl) ?_ ?_
  · rintro d ⟨autostart, rfl⟩
    rfl
  · intro _ d a d' ev _ _ hs
    rcases panickyStep_flag hs with hsame | ⟨b, hb⟩
    · exact .inl ⟨hsame, rfl⟩
    · exact .inr ⟨b, trivial, hb⟩

/-! ## The busy gate -/

section Gate

variable {cfg : Config} {d : Daemon} {i : ℕ} {c : Completion} {model : String} {stream : Bool}

/-- With the flag down the busy gate lets the handler pass, and it owns the guard. -/
theorem acquire_succeeds (hc : d.comps[i]? = some c) (hp : c.pc = .acquire model stream)
    (hb : d.busy = false) :
    ∃ d', panickyStep cfg d (.daemon (.handler i .next)) = some (d', [.acquired i]) ∧
      d'.HasGuard i := by
  refine ⟨{ d with busy := true }.setPc i (.session model stream), ?_, ?_⟩
  · simp [panickyStep, daemonStep, hc, handlerStep, handlerNext, hp, hb]
  · exact ⟨_, (updates_modify hc).self, rfl⟩

/-- With the flag up the handler is turned away, and flag and guards stay as they are. -/
theorem acquire_fails (hc : d.comps[i]? = some c) (hp : c.pc = .acquire model stream)
    (hb : d.busy = true) :
    ∃ d', panickyStep cfg d (.daemon (.handler i .next)) = some (d', []) ∧ d'.busy = true ∧
      ∀ j, d'.HasGuard j ↔ d.HasGuard j := by
  refine ⟨d.setPc i (.replied (some busyReply)), ?_, hb, fun j => ?_⟩
  · simp [panickyStep, daemonStep, hc, handlerStep, handlerNext, hp, hb, Daemon.reject]
  · have hflag : (d.setPc i (.replied (some busyReply))).flag = d.flag :=
      Daemon.flag_kept hc (updates_modify hc) rfl (by rw [hp]; rfl)
    rw [← Daemon.flag_owns_iff, ← Daemon.flag_owns_iff, hflag]

end Gate

/-- **The busy flag never wedges**: at most one guard exists, the flag is up exactly while one
does, the gate admits the next completion whenever none does, and a completion that it turns
away takes nothing from the owner. -/
theorem busy_flag_never_wedges {cfg : Config} {tr : List DaemonEvent} {d : Daemon}
    (h : (panickyDaemon cfg).Run Anything tr d) :
    (∀ i j, d.HasGuard i → d.HasGuard j → i = j) ∧
      (d.busy = true ↔ ∃ i, d.HasGuard i) ∧
      ∀ i c model stream, d.comps[i]? = some c → c.pc = .acquire model stream →
        ((¬ ∃ j, d.HasGuard j) →
          ∃ d', panickyStep cfg d (.daemon (.handler i .next)) = some (d', [.acquired i]) ∧
            d'.HasGuard i) ∧
        ((∃ j, d.HasGuard j) →
          ∃ d', panickyStep cfg d (.daemon (.handler i .next)) = some (d', []) ∧
            d'.busy = true ∧ ∀ j, d'.HasGuard j ↔ d.HasGuard j) := by
  have hflag : Exclusive d.flag := exclusive_of_run (flag_of_run h)
  have hbusy : d.busy = true ↔ ∃ i, d.HasGuard i := by
    have hup := hflag.up_iff
    simp only [Daemon.flag_owns_iff] at hup
    exact hup
  refine ⟨fun i j hi hj => ?_, hbusy, ?_⟩
  · exact hflag.unique i j ((d.flag_owns_iff i).mpr hi) ((d.flag_owns_iff j).mpr hj)
  intro i c model stream hc hp
  refine ⟨fun hnone => ?_, fun hsome => ?_⟩
  · have hdown : d.busy = false := by
      cases hb : d.busy with
      | false => rfl
      | true => exact absurd (hbusy.mp hb) hnone
    exact acquire_succeeds hc hp hdown
  · exact acquire_fails hc hp (hbusy.mpr hsome)

/-- Is the handler at the busy gate? -/
def HandlerPc.isAcquiring : HandlerPc → Bool
  | .acquire _ _ => true
  | _ => false

/-- The owner of the guard panics at its session lookup, and the next completion comes to the
busy gate. -/
def panicAtLookup : List PanickyAct :=
  List.flatten [(startFully modelA 7).map fun a => .daemon (.sup a),
    ((passGates 0 plainBody).take 5).map .daemon, [.handler 0],
    ((passGates 1 plainBody).take 4).map .daemon]

theorem busy_flag_never_wedges_panic :
    ∃ tr d d', (panickyDaemon sampleConfig).Run Anything tr d ∧ .acquired 0 ∈ tr ∧
      panickyStep sampleConfig d (.daemon (.handler 1 .next)) = some (d', [.acquired 1]) := by
  obtain ⟨tr, d, h, hp⟩ := Run.reaches (panickyDaemon sampleConfig) Anything panicAtLookup
    (fun tr d => decide (DaemonEvent.acquired 0 ∈ tr) && !d.busy &&
      d.comps[1]?.any fun c => c.pc.isAcquiring) ⟨none, rfl⟩ (admits_anything _ _ _)
    (by decide)
  simp only [Bool.and_eq_true, Bool.not_eq_true', Option.any_eq_true] at hp
  obtain ⟨⟨hmem, hdown⟩, c, hc, hpc⟩ := hp
  obtain ⟨-, hbusy, hgate⟩ := busy_flag_never_wedges h
  have hnone : ¬ ∃ j, d.HasGuard j := by
    rw [← hbusy, hdown]
    exact Bool.false_ne_true
  cases hacq : c.pc with
  | acquire model stream =>
    obtain ⟨d', hstep, -⟩ := (hgate 1 c model stream hc hacq).1 hnone
    exact ⟨tr, d, d', h, of_decide_eq_true hmem, hstep⟩
  | _ =>
    rw [hacq] at hpc
    exact absurd hpc Bool.false_ne_true

end LlmCtl
