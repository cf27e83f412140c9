/-
# Is the recorded model the serving model?

The model gate reads `model_id` once.  Between this read and the moment the worker
accepts the request lie the busy gate, a session lookup and a connect to a fixed port,
and `start_model` may put another worker behind that port meanwhile.  In every run in
which no start of another model is announced between the gate and the acceptance, whoever
answers was launched for the model of the record:

* what the gate has seen stays true until a start is announced (`gatedOk_of_run`), since
  nothing else writes `model_id`;
* a live child is launched for `model_id`;
* from the acceptance on the handler and the drain task carry the model and the worker
  together (`ServingOk`).
-/
import LlmCtl.DaemonStep

namespace LlmCtl

open EventSystem ListTable

/-! ## The property -/

/-- Child `k` was launched for the model with this id. -/
def LaunchedFor (procs : List Proc) (k : ℕ) (model : String) : Prop :=
  ∃ (c : Proc) (m : Model), procs[k]? = some c ∧ c.launchedFor = some m ∧ m.id = model

/-- **The recorded model is the serving model**: a completion is accepted by a worker of the
model that it passed the gate for, and a turn is recorded under the model of the worker
that answered. -/
def ServingModelRecorded (tr : List DaemonEvent) (d : Daemon) : Prop :=
  (∀ i model worker, .sent i model worker ∈ tr → LaunchedFor d.sup.procs worker model) ∧
    ∀ i turn worker, .recorded i turn worker ∈ tr →
      LaunchedFor d.sup.procs worker turn.requestModel

/-! ## The condition -/

/-- The completion whose request a worker accepts. -/
def DaemonAct.reaching : DaemonAct → Option ℕ
  | .handler i (.reached _) => some i
  | _ => none

/-- The model that the gate let the request pass for, until a worker accepts it. -/
def HandlerPc.gatedFor : HandlerPc → Option String
  | .mark model _ | .acquire model _ | .session model _ | .send model _ _ => some model
  | _ => none

/-- The last model whose start was announced, and written to `model_id`, since the gate let
completion `i` pass. -/
def announcedSince (i : ℕ) : List DaemonEvent → Option String
  | [] => none
  | .passed j _ :: tr => if j = i then none else announcedSince i tr
  | .sup (.spawning _ m) :: _ => some m.id
  | _ :: tr => announcedSince i tr

/-- When a worker accepts a request, the last start announced since the gate let the request
pass, if there was one, is of the request's own model. -/
def NoSwitchBetween (tr : List DaemonEvent) (d : Daemon) (a : DaemonAct) : Prop :=
  ∀ i ∈ a.reaching, ∀ c ∈ d.comps[i]?, ∀ model ∈ c.pc.gatedFor, ∀ id ∈ announcedSince i tr,
    id = model

/-- No worker is lost, and no switch comes between the gate and the worker. -/
def Unswitched (cfg : Config) (tr : List DaemonEvent) (d : Daemon) (a : DaemonAct) : Prop :=
  OnSup (Kept cfg) tr d a ∧ NoSwitchBetween tr d a

section Decidable

variable (cfg : Config) (tr : List DaemonEvent) (d : Daemon) (a : DaemonAct)

instance : Decidable (NoSwitchBetween tr d a) :=
  inferInstanceAs (Decidable (∀ i ∈ a.reaching, ∀ c ∈ d.comps[i]?, ∀ model ∈ c.pc.gatedFor,
    ∀ id ∈ announcedSince i tr, id = model))

instance : Decidable (Unswitched cfg tr d a) :=
  inferInstanceAs (Decidable (OnSup (Kept cfg) tr d a ∧ NoSwitchBetween tr d a))

end Decidable

/-- The supervisor's part of a run in which no worker is lost. -/
theorem kept_of_run {cfg : Config} {tr : List DaemonEvent} {d : Daemon}
    (h : (daemon cfg).Run (OnSup (Kept cfg)) tr d) :
    (supervisor cfg).Run (Kept cfg) (supTrace tr) d.sup := by
  have hkept : ∀ tr s a, a.childPid = none → a.isUnsent = false → a.dropsOwner = false →
      Kept cfg tr s a := by
    intro tr s a hchild hunsent hdrop
    refine ⟨?_, ?_, ?_, ?_⟩
    · exact fun pid hpid => absurd hpid (by simp [hchild])
    · exact fun htrue => absurd (hunsent.symm.trans htrue) (by simp)
    · exact fun pid hpid => absurd hpid (by simp [hchild])
    · exact fun htrue => absurd (hdrop.symm.trans htrue) (by simp)
  exact sup_of_run (fun tr s => hkept tr s _ rfl rfl rfl) (fun tr s _ => hkept tr s _ rfl rfl rfl) h

/-! ## What the gate has seen -/

/-- The gate lets pass for the active model only. -/
theorem active_of_modelGate {active : Option String} {req model : String}
    (h : modelGate active req = .ok model) : active = some model := by
  cases active with
  | none => exact absurd h (by simp [modelGate])
  | some id =>
    simp only [modelGate] at h
    split at h
    · exact absurd h (by simp)
    · next hsame =>
      -- The request names the active model, or none.
      obtain rfl := Except.ok.inj h
      by_cases hreq : req = ""
      · rw [if_pos hreq]
      · rw [if_neg hreq]
        by_cases heq : req = id
        · rw [heq]
        · exact absurd ⟨hreq, heq⟩ hsame

/-- **What the gate has seen stays true** as long as no start of another model is announced. -/
def GatedOk (tr : List DaemonEvent) (d : Daemon) : Prop :=
  ∀ (i : ℕ) (c : Completion), d.comps[i]? = some c → ∀ model ∈ c.pc.gatedFor,
    (∀ id ∈ announcedSince i tr, id = model) → d.sup.st.modelId = some model

/-- Does the event concern the gate: a completion passes, or a start is announced? -/
def DaemonEvent.concernsGate : DaemonEvent → Bool
  | .passed _ _ => true
  | .sup e => e.isSpawning
  | _ => false

theorem announcedSince_append {ev tr : List DaemonEvent} (h : ∀ e ∈ ev, e.concernsGate = false)
    (i : ℕ) : announcedSince i (ev ++ tr) = announcedSince i tr := by
  apply ignores_append (f := fun tr => announcedSince i tr)
  intro e he before
  have hnot := h e he
  cases e with
  | passed j model => exact absurd hnot (by simp [DaemonEvent.concernsGate])
  | sup e =>
    cases e with
    | spawning caller m => exact absurd hnot (by simp [DaemonEvent.concernsGate, Event.isSpawning])
    | _ => rfl
  | _ => rfl

/-- A completion goes on, and is past the gate only if it was. -/
theorem GatedOk.updated {tr ev : List DaemonEvent} {d d' : Daemon} {i : ℕ} {c c' : Completion}
    (h : GatedOk tr d) (hc : d.comps[i]? = some c) (hu : Updates d.comps d'.comps i c')
    (hmodel : d'.sup.st.modelId = d.sup.st.modelId)
    (hpc : c'.pc.gatedFor = c.pc.gatedFor ∨ c'.pc.gatedFor = none)
    (hev : ∀ e ∈ ev, e.concernsGate = false) : GatedOk (ev ++ tr) d' := by
  intro j x hx model hgated hsame
  rw [announcedSince_append hev] at hsame
  rw [hmodel]
  rcases hu.cases hx with ⟨rfl, rfl⟩ | ⟨-, hx'⟩
  · rcases hpc with heq | hnone
    · exact h j c hc model (heq ▸ hgated) hsame
    · exact absurd hgated (by simp [hnone])
  · exact h j x hx' model hgated hsame

theorem HandlerMove.gatedFor {d : Daemon} {c : Completion} {pc : HandlerPc}
    (hm : HandlerMove d c pc) : pc.gatedFor = c.pc.gatedFor ∨ pc.gatedFor = none := by
  cases hm with
  | resolved model sessionId stream hp => exact .inl (by rw [hp]; rfl)
  | ended _ hg hover =>
    right
    cases pc with
    | replied | dropped => rfl
    | _ => exact absurd hover Bool.false_ne_true
  | _ => exact .inr rfl

/-- **Every step keeps what the gate has seen.** -/
theorem DaemonStep.gatedOk {cfg : Config} {d d' : Daemon} {a : DaemonAct}
    {tr ev : List DaemonEvent} (hs : DaemonStep cfg d a ev d') (h : GatedOk tr d) :
    GatedOk (ev ++ tr) d' := by
  cases hs with
  | sup b s ev' ha hstep =>
    intro i c hc model hgated hsame
    rcases (step_cases hstep).modelId with ⟨hkept, hquiet⟩ | ⟨caller, m, hwritten, rfl⟩
    · have hev : ∀ e ∈ ev'.map DaemonEvent.sup, e.concernsGate = false := by
        intro e he
        obtain ⟨e', he', rfl⟩ := List.mem_map.mp he
        exact hquiet e' he'
      rw [announcedSince_append hev] at hsame
      exact hkept.trans (h i c hc model hgated hsame)
    · -- The start that is announced is one of the gated model.
      have hid : m.id = model := hsame m.id rfl
      exact hwritten.trans (by rw [hid])
  | call body hacc =>
    intro i c hc model hgated hsame
    rcases getElem?_concat_cases hc with hold | ⟨-, rfl⟩
    · exact h i c hold model hgated hsame
    · exact absurd hgated (by simp [Completion.new, HandlerPc.gatedFor])
  | gated i c m model stream hc hp hg =>
    intro j x hx model' hgated hsame
    rcases (updates_modify (f := fun x => x.goto (.mark model stream)) hc).cases hx with
      ⟨rfl, rfl⟩ | ⟨hne, hx'⟩
    · obtain rfl : model = model' := by simpa [HandlerPc.gatedFor] using hgated
      exact active_of_modelGate hg
    · have hother : announcedSince j (.passed i model :: tr) = announcedSince j tr :=
        if_neg (Ne.symm hne)
      rw [List.singleton_append, hother] at hsame
      exact h j x hx' model' hgated hsame
  | move i c pc hc hm =>
    exact h.updated hc (updates_modify hc) rfl hm.gatedFor (by simp)
  | mark i c model stream hc hp =>
    exact h.updated hc (updates_modify hc) rfl (.inl (by rw [hp]; rfl)) (by simp)
  | acquire i c model stream hc hp hb =>
    exact h.updated hc (updates_modify hc) rfl (.inl (by rw [hp]; rfl))
      (by simp [DaemonEvent.concernsGate])
  | reached i c model sessionId stream worker hc hp hl =>
    exact h.updated hc (updates_modify hc) rfl (.inr rfl) (by simp [DaemonEvent.concernsGate])
  | finish i c pc hc hg hr hover =>
    refine h.updated hc (updates_modify hc) rfl (.inr ?_) (by simp [DaemonEvent.concernsGate])
    cases pc with
    | replied | dropped => rfl
    | _ => exact absurd hover Bool.false_ne_true
  | spawnDrain i c model sessionId worker hc hp =>
    have hu : Updates d.comps _ i _ :=
      (updates_modify (f := fun x => x.goto .returning) hc).trans
        (updates_modify (f := fun x => x.drainTo (.draining model sessionId worker))
          (updates_modify hc).self)
    exact h.updated hc hu rfl (.inr rfl) (by simp)
  | returned i c hc hp =>
    exact h.updated hc (updates_modify hc) rfl (.inr rfl) (by simp [DaemonEvent.concernsGate])
  | stash i c turn worker hc hp =>
    exact h.updated hc (updates_modify hc) rfl (.inr rfl) (by simp)
  | stored i c turn worker committed hc hp =>
    refine h.updated hc (updates_modify hc) rfl (.inr rfl) ?_
    cases committed <;> simp [DaemonEvent.concernsGate]
  | disconnect i c hc | drained i c model sessionId worker why timings turn hc hp
  | drainStash i c turn worker hc hp =>
    exact h.updated hc (updates_modify hc) rfl (.inl rfl) (by simp)
  | drainEnded i c t hc hp | drainStored i c turn worker hc hp =>
    exact h.updated hc (updates_modify hc) rfl (.inl rfl) (by simp [DaemonEvent.concernsGate])

/-- What the gate has seen stays true in every run. -/
theorem gatedOk_of_run {cfg : Config} {ok : List DaemonEvent → Daemon → DaemonAct → Prop}
    {tr : List DaemonEvent} {d : Daemon} (h : (daemon cfg).Run ok tr d) : GatedOk tr d := by
  refine h.invariant (I := GatedOk) ?_ ?_
  · rintro d ⟨autostart, rfl⟩ i c hc
    exact absurd hc (by simp [Daemon.init])
  · intro tr d a d' ev _ _ hs hgated
    exact (daemonStep_cases hs).gatedOk hgated

/-! ## A child keeps the model it was launched for -/

theorem LaunchedFor.modify {procs : List Proc} {k : ℕ} {model : String}
    (h : LaunchedFor procs k model) (i : ℕ) {f : Proc → Proc}
    (hf : ∀ c, (f c).launchedFor = c.launchedFor) : LaunchedFor (procs.modify i f) k model := by
  obtain ⟨c, m, hc, hm, hid⟩ := h
  by_cases hik : i = k
  · subst hik
    exact ⟨f c, m, by simp [hc], by rw [hf, hm], hid⟩
  · exact ⟨c, m, by simp [hik, hc], hm, hid⟩

theorem LaunchedFor.concat {procs : List Proc} {k : ℕ} {model : String}
    (h : LaunchedFor procs k model) (c₀ : Proc) : LaunchedFor (procs ++ [c₀]) k model := by
  obtain ⟨c, m, hc, hrest⟩ := h
  exact ⟨c, m, getElem?_concat_of_some hc, hrest⟩

theorem LaunchedFor.sigkill {procs : List Proc} {k : ℕ} {model : String}
    (h : LaunchedFor procs k model) (pid : ℕ) : LaunchedFor (sigkill procs pid) k model := by
  obtain ⟨c, m, hc, hm, hid⟩ := h
  refine ⟨c.killed pid, m, ?_, by simp [hm], hid⟩
  rw [LlmCtl.sigkill, List.getElem?_map, hc]
  rfl

/-- No step of the supervisor changes what a child was launched for. -/
theorem Step.launchedFor {cfg : Config} {s s' : Sup} {a : Act} {ev : List Event}
    (hs : Step cfg s a ev s') {k : ℕ} {model : String} (h : LaunchedFor s.procs k model) :
    LaunchedFor s'.procs k model := by
  cases hs with
  | exit i c hc hrun => exact h.modify i Proc.die_launchedFor
  | appear pid cmdline hp => exact h.concat _
  | reap i c hc hw hz => exact h.modify i Proc.reap_launchedFor
  | waitSection i c hc hw => exact h.modify i Proc.waitDone_launchedFor
  | kill caller pid hc => exact h.sigkill pid
  | launched caller m pid hc hp => exact h.concat _
  | finish caller hc =>
    rw [afterStop_procs]
    exact h
  | spawnReturn caller m ok pc hc hpc =>
    rw [spawnReturned_procs]
    exact h
  | failed caller m e hc =>
    rw [spawnReturned_procs]
    exact h
  | record caller m child pid hc =>
    rw [spawnReturned_procs]
    exact h.modify child Proc.startWait_launchedFor
  | count m hc =>
    rw [countStep_procs]
    exact h
  | _ => exact h

/-! ## The invariant -/

/-- The model and the worker that a handler has put together. -/
def HandlerPc.pairing : HandlerPc → Option (String × ℕ)
  | .awaitHead model _ _ worker | .spawnDrain model _ worker | .readBytes model _ worker =>
    some (model, worker)
  | .stash turn worker | .store turn worker => some (turn.requestModel, worker)
  | _ => none

/-- The same for a drain task. -/
def DrainPc.pairing : DrainPc → Option (String × ℕ)
  | .draining model _ worker => some (model, worker)
  | .stash turn worker | .store turn worker => some (turn.requestModel, worker)
  | .absent | .ended => none

/-- The same for an event. -/
def DaemonEvent.pairing : DaemonEvent → Option (String × ℕ)
  | .sent _ model worker => some (model, worker)
  | .recorded _ turn worker => some (turn.requestModel, worker)
  | _ => none

/-- The worker of the pair was launched for the model of the pair. -/
def Matched (procs : List Proc) (q : Option (String × ℕ)) : Prop :=
  ∀ p ∈ q, LaunchedFor procs p.2 p.1

/-- **The invariant**: every model and worker put together belong together. -/
structure ServingOk (tr : List DaemonEvent) (d : Daemon) : Prop where
  handlers : ∀ (i : ℕ) (c : Completion), d.comps[i]? = some c → Matched d.sup.procs c.pc.pairing
  drains : ∀ (i : ℕ) (c : Completion), d.comps[i]? = some c →
    Matched d.sup.procs c.drain.pairing
  events : ∀ e ∈ tr, Matched d.sup.procs e.pairing

theorem matched_none (procs : List Proc) : Matched procs none :=
  fun _ hp => absurd hp (by simp)

theorem matched_some {procs : List Proc} {model : String} {worker : ℕ}
    (h : LaunchedFor procs worker model) : Matched procs (some (model, worker)) := by
  intro p hp
  obtain rfl : (model, worker) = p := by simpa using hp
  exact h

/-- One completion goes on. -/
theorem ServingOk.updated {tr ev : List DaemonEvent} {d d' : Daemon} {i : ℕ} {c' : Completion}
    (h : ServingOk tr d) (hu : Updates d.comps d'.comps i c')
    (hprocs : d'.sup.procs = d.sup.procs) (hpc : Matched d.sup.procs c'.pc.pairing)
    (hdrain : Matched d.sup.procs c'.drain.pairing)
    (hev : ∀ e ∈ ev, Matched d.sup.procs e.pairing) : ServingOk (ev ++ tr) d' where
  handlers := by
    intro j x hx
    rw [hprocs]
    rcases hu.cases hx with ⟨-, rfl⟩ | ⟨-, hx'⟩
    · exact hpc
    · exact h.handlers j x hx'
  drains := by
    intro j x hx
    rw [hprocs]
    rcases hu.cases hx with ⟨-, rfl⟩ | ⟨-, hx'⟩
    · exact hdrain
    · exact h.drains j x hx'
  events := by
    intro e he
    rw [hprocs]
    rcases List.mem_append.mp he with hnew | hold
    · exact hev e hnew
    · exact h.events e hold

theorem HandlerMove.matched {d : Daemon} {c : Completion} {pc : HandlerPc}
    (hm : HandlerMove d c pc) {procs : List Proc} (h : Matched procs c.pc.pairing) :
    Matched procs pc.pairing := by
  cases hm with
  | ended _ hg hover =>
    cases pc with
    | replied | dropped => exact matched_none procs
    | _ => exact absurd hover Bool.false_ne_true
  | headStream model sessionId worker hp =>
    rw [hp] at h
    exact h
  | headPlain model sessionId worker hp =>
    rw [hp] at h
    exact h
  | turn model sessionId worker answer turn hp ht =>
    rw [hp] at h
    show Matched procs (some (turn.requestModel, worker))
    rw [turnOfResponse_model ht]
    exact h
  | _ => exact matched_none procs

/-- The supervisor goes on. -/
theorem ServingOk.supervised {cfg : Config} {tr : List DaemonEvent} {d : Daemon} {s : Sup}
    {a : Act} {ev : List Event} (h : ServingOk tr d) (hs : Step cfg d.sup a ev s) :
    ServingOk (ev.map .sup ++ tr) { d with sup := s } := by
  have hkeep : ∀ q, Matched d.sup.procs q → Matched s.procs q :=
    fun q hq p hp => hs.launchedFor (hq p hp)
  refine ⟨fun i c hc => hkeep _ (h.handlers i c hc), fun i c hc => hkeep _ (h.drains i c hc), ?_⟩
  intro e he
  rcases List.mem_append.mp he with hnew | hold
  · obtain ⟨e', -, rfl⟩ := List.mem_map.mp hnew
    exact matched_none _
  · exact hkeep _ (h.events e hold)

/-- A worker that is alive when it accepts a request was launched for `model_id`, which is still
the model of the gate if no start of another one has been announced. -/
theorem GatedOk.launchedFor {tr : List DaemonEvent} {d : Daemon} (h : GatedOk tr d)
    (ht : Tracked d.sup) {i : ℕ} {c : Completion} (hc : d.comps[i]? = some c) {model : String}
    (hmodel : model ∈ c.pc.gatedFor) (hsame : ∀ id ∈ announcedSince i tr, id = model) {worker : ℕ}
    (hl : d.sup.procs[worker]?.any Proc.live = true) : LaunchedFor d.sup.procs worker model := by
  have hactive : d.sup.st.modelId = some model := h i c hc model hmodel hsame
  obtain ⟨p, hpk, hlive⟩ := (Option.any_eq_true _ _).mp hl
  have hchild : p.launchedFor.isSome = true := by
    simp only [Proc.live, Bool.and_eq_true] at hlive
    exact hlive.1
  obtain ⟨m, hm⟩ := Option.isSome_iff_exists.mp hchild
  exact ⟨p, m, hpk, hm, Option.some.inj ((ht.models worker p m hpk hlive hm).symm.trans hactive)⟩

/-- **Every allowed step keeps the invariant**, given what holds of the supervisor and of the
gate. -/
theorem DaemonStep.servingOk {cfg : Config} {d d' : Daemon} {a : DaemonAct}
    {tr ev : List DaemonEvent} (hs : DaemonStep cfg d a ev d') (hok : NoSwitchBetween tr d a)
    (ht : Tracked d.sup) (hgate : GatedOk tr d) (h : ServingOk tr d) :
    ServingOk (ev ++ tr) d' := by
  cases hs with
  | sup b s ev' ha hstep => exact h.supervised (step_cases hstep)
  | call body hacc =>
    refine ⟨fun i c hc => ?_, fun i c hc => ?_, h.events⟩
    · rcases getElem?_concat_cases hc with hold | ⟨-, rfl⟩
      · exact h.handlers i c hold
      · exact matched_none _
    · rcases getElem?_concat_cases hc with hold | ⟨-, rfl⟩
      · exact h.drains i c hold
      · exact matched_none _
  | move i c pc hc hm =>
    exact h.updated (updates_modify hc) rfl (hm.matched (h.handlers i c hc)) (h.drains i c hc)
      (by simp)
  | gated i c m model stream hc hp hg =>
    refine h.updated (updates_modify hc) rfl (matched_none _) (h.drains i c hc) fun e he => ?_
    obtain rfl : e = .passed i model := by simpa using he
    exact matched_none _
  | mark i c model stream hc hp =>
    exact h.updated (updates_modify hc) rfl (matched_none _) (h.drains i c hc) (by simp)
  | acquire i c model stream hc hp hb =>
    refine h.updated (updates_modify hc) rfl (matched_none _) (h.drains i c hc) fun e he => ?_
    obtain rfl : e = .acquired i := by simpa using he
    exact matched_none _
  | reached i c model sessionId stream worker hc hp hl =>
    have hgated : model ∈ c.pc.gatedFor := by rw [hp]; rfl
    have hmatch := hgate.launchedFor ht hc hgated (hok i rfl c hc model hgated) hl
    refine h.updated (updates_modify hc) rfl (matched_some hmatch) (h.drains i c hc)
      fun e he => ?_
    obtain rfl : e = .sent i model worker := by simpa using he
    exact matched_some hmatch
  | finish i c pc hc hg hr hover =>
    refine h.updated (updates_modify hc) rfl ?_ (h.drains i c hc) fun e he => ?_
    · show Matched d.sup.procs pc.pairing
      cases pc with
      | replied | dropped => exact matched_none _
      | _ => exact absurd hover Bool.false_ne_true
    · obtain rfl | rfl : e = .released i ∨ e = .turnOver i := by simpa using he
      · exact matched_none _
      · exact matched_none _
  | spawnDrain i c model sessionId worker hc hp =>
    have hu : Updates d.comps _ i _ :=
      (updates_modify (f := fun x => x.goto .returning) hc).trans
        (updates_modify (f := fun x => x.drainTo (.draining model sessionId worker))
          (updates_modify hc).self)
    have hmatch := h.handlers i c hc
    rw [hp] at hmatch
    exact h.updated hu rfl (matched_none _) hmatch (by simp)
  | returned i c hc hp =>
    refine h.updated (updates_modify hc) rfl (matched_none _) (h.drains i c hc) fun e he => ?_
    obtain rfl : e = .released i := by simpa using he
    exact matched_none _
  | stash i c turn worker hc hp =>
    have hmatch := h.handlers i c hc
    rw [hp] at hmatch
    exact h.updated (updates_modify hc) rfl hmatch (h.drains i c hc) (by simp)
  | stored i c turn worker committed hc hp =>
    have hmatch := h.handlers i c hc
    rw [hp] at hmatch
    refine h.updated (updates_modify hc) rfl (matched_none _) (h.drains i c hc) fun e he => ?_
    cases committed with
    | true =>
      obtain rfl : e = .recorded i turn worker := by simpa using he
      exact hmatch
    | false => exact absurd he (by simp)
  | disconnect i c hc =>
    exact h.updated (updates_modify hc) rfl (h.handlers i c hc) (h.drains i c hc) (by simp)
  | drained i c model sessionId worker why timings turn hc hp htn =>
    have hmatch := h.drains i c hc
    rw [hp] at hmatch
    refine h.updated (updates_modify hc) rfl (h.handlers i c hc) ?_ (by simp)
    -- The turn is recorded under the model that the task was given.
    show Matched d.sup.procs (some (turn.requestModel, worker))
    rw [turnOfStream_model htn]
    exact hmatch
  | drainStash i c turn worker hc hp =>
    have hmatch := h.drains i c hc
    rw [hp] at hmatch
    exact h.updated (updates_modify hc) rfl (h.handlers i c hc) hmatch (by simp)
  | drainEnded i c t hc hp =>
    refine h.updated (updates_modify hc) rfl (h.handlers i c hc) (matched_none _) fun e he => ?_
    obtain rfl : e = .turnOver i := by simpa using he
    exact matched_none _
  | drainStored i c turn worker hc hp =>
    have hmatch := h.drains i c hc
    rw [hp] at hmatch
    refine h.updated (updates_modify hc) rfl (h.handlers i c hc) (matched_none _) fun e he => ?_
    obtain rfl | rfl : e = .turnOver i ∨ e = .recorded i turn worker := by simpa using he
    · exact matched_none _
    · exact hmatch

/-- **The invariant** holds in every run that the condition allows. -/
theorem servingOk_of_run {cfg : Config} {tr : List DaemonEvent} {d : Daemon}
    (h : (daemon cfg).Run (Unswitched cfg) tr d) : ServingOk tr d := by
  refine h.invariant (I := ServingOk) ?_ ?_
  · rintro d ⟨autostart, rfl⟩
    exact
      { handlers := fun i c hc => absurd hc (by simp [Daemon.init])
        drains := fun i c hc => absurd hc (by simp [Daemon.init])
        events := fun e he => absurd he (by simp) }
  · intro tr d a d' ev hrun hok hs hserv
    have htracked : Tracked d.sup :=
      tracked_of_run (kept_of_run (hrun.mono fun _ _ _ ho => ho.1))
    exact (daemonStep_cases hs).servingOk hok.2 htracked (gatedOk_of_run hrun) hserv

/-! ## Results -/

/-- **The recorded model is the serving model** in every run in which no start of another model
is announced between the gate and the acceptance of a request. -/
theorem serving_model_recorded_of_unswitched {cfg : Config} {tr : List DaemonEvent} {d : Daemon}
    (h : (daemon cfg).Run (Unswitched cfg) tr d) : ServingModelRecorded tr d := by
  have hserv := servingOk_of_run h
  constructor
  · intro i model worker he
    exact hserv.events _ he (model, worker) rfl
  · intro i turn worker he
    exact hserv.events _ he (turn.requestModel, worker) rfl

/-- A completion is answered by the worker and recorded. -/
theorem serving_model_recorded_of_unswitched_plain :
    ∃ tr d, (daemon sampleConfig).Run (Unswitched sampleConfig) tr d ∧
      .recorded 0 (buildTurn "s" "a" none) 0 ∈ tr ∧ ServingModelRecorded tr d := by
  have hreach := Run.reaches (daemon sampleConfig) (Unswitched sampleConfig)
    (List.flatten [(startFully modelA 7).map .sup, passGates 0 plainBody,
      [.handler 0 (.reached 0), .handler 0 .next, .handler 0 (.bytes (some (.obj []))),
        .handler 0 .next, .handler 0 (.stored true)]])
    (fun tr _ => DaemonEvent.recorded 0 (buildTurn "s" "a" none) 0 ∈ tr) ⟨none, rfl⟩
    (by decide) (by decide)
  obtain ⟨tr, d, hrun, hp⟩ := hreach
  exact ⟨tr, d, hrun, of_decide_eq_true hp, serving_model_recorded_of_unswitched hrun⟩

/-- **A switch in between**: although the supervisor is in order, a completion that passed the
gate for `a` is answered by the worker of `b` and recorded under `a`. -/
theorem switched_completion_is_recorded :
    ∃ tr d, (daemon sampleConfig).Run (OnSup (Orderly sampleConfig)) tr d ∧
      ¬ ServingModelRecorded tr d := by
  have hreach := Run.reaches (daemon sampleConfig) (OnSup (Orderly sampleConfig))
    (List.flatten [(startFully modelA 7).map .sup, passGates 0 plainBody,
      [Act.callStart modelB, .grant, .run, .run, .run, .run, .run, .exit 0, .run, .run, .reap 0,
        .run, .run, .run, .run, .exec (.spawned 8), .run].map .sup,
      [.handler 0 (.reached 1), .handler 0 .next, .handler 0 (.bytes (some (.obj []))),
        .handler 0 .next, .handler 0 (.stored true)]])
    (fun tr d => DaemonEvent.recorded 0 (buildTurn "s" "a" none) 1 ∈ tr ∧
      (d.sup.procs[1]?.bind Proc.launchedFor).map Model.id = some "b") ⟨none, rfl⟩
    (by decide) (by decide)
  obtain ⟨tr, d, hrun, hp⟩ := hreach
  obtain ⟨hrec, hb⟩ := of_decide_eq_true hp
  refine ⟨tr, d, hrun, fun hserves => ?_⟩
  obtain ⟨c, m, hc, hm, hid⟩ := hserves.2 0 _ 1 hrec
  rw [hc, Option.bind_some, hm, Option.map_some, hid] at hb
  exact absurd (Option.some.inj hb) (by simp [buildTurn])

end LlmCtl
