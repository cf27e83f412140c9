/-
# What the proxy and the models list make of `model_id`

The model gate of the proxy and `Supervisor::list` take the model in `model_id` for the
active one, and `list` gives the worker's status to every model.  But `model_id` is
written when a start is announced and by nothing else: it is always the model of the last
start, whether its worker has been stopped since or not.  So after a stop the gate turns a
request away with "no model loaded" only if no start was ever announced, and the statuses
in the list are right only if the worker is stopped or the list holds no other model.
-/
import LlmCtl.Completion
import LlmCtl.SingleWorker

namespace LlmCtl

open EventSystem

/-! ## `Supervisor::list` -/

/-- `format!("{:?}", status)`; `quote` is what `{:?}` makes of the reason. -/
def WorkerStatus.debug (quote : String → String) : WorkerStatus → String
  | .stopped => "Stopped"
  | .starting => "Starting"
  | .ready => "Ready"
  | .stopping => "Stopping"
  | .crashed reason => "Crashed(" ++ quote reason ++ ")"

/-- An entry of the models list. -/
structure ListEntry where
  id : String
  model : String
  autostart : Bool
  description : String
  active : Bool
  status : String

/-- `Supervisor::list`: the candidate models with the current status. -/
def Sup.list (s : Sup) (quote : String → String) (models : List Model) : List ListEntry :=
  models.map fun m =>
    { id := m.id
      model := m.model
      autostart := m.autostart
      description := m.description
      active := s.st.modelId == some m.id
      status := s.st.status.debug quote }

/-- Only `Stopped` is printed as such. -/
theorem WorkerStatus.debug_eq_stopped (quote : String → String) (status : WorkerStatus) :
    status.debug quote = "Stopped" ↔ status = .stopped := by
  constructor
  · intro h
    cases status with
    | stopped => rfl
    | starting => exact absurd h (by simp [WorkerStatus.debug])
    | ready => exact absurd h (by simp [WorkerStatus.debug])
    | stopping => exact absurd h (by simp [WorkerStatus.debug])
    | crashed reason =>
      have hfirst : ("Crashed(" ++ quote reason ++ ")").toList.head? = some 'S' := by
        show (WorkerStatus.debug quote (.crashed reason)).toList.head? = some 'S'
        rw [h]
        rfl
      rw [String.toList_append, String.toList_append, List.append_assoc] at hfirst
      have hchar : some 'C' = some 'S' := hfirst
      exact absurd hchar (by decide)
  · rintro rfl
    rfl

/-! ## The property -/

/-- Was the last lifecycle operation a stop that has returned, with no start and no restart
since? -/
def stoppedLast : List Event → Bool
  | [] => false
  | .stopReturned _ :: _ => true
  | .acquired (.startModel _) :: _ => false
  | .restartCounted :: _ => false
  | .spawning _ _ :: _ => false
  | _ :: tr => stoppedLast tr

/-- The model of the last announced start: the one that the worker, or what became of it,
belongs to. -/
def workerModel : List Event → Option Model
  | [] => none
  | .spawning _ m :: _ => some m
  | _ :: tr => workerModel tr

/-- The model gate turns every request away with "no model loaded". -/
def RejectsAll (active : Option String) : Prop :=
  ∀ reqModel, modelGate active reqModel = .error ⟨503, "no model loaded; start one first"⟩

/-- **The consumers of `model_id` agree with the lifecycle**: after a stop the gate rejects
every request and the list shows no active model; and the list shows a status other than
`Stopped` only for the model that the worker belongs to. -/
structure ConsumersAgree (quote : String → String) (tr : List Event) (s : Sup)
    (models : List Model) : Prop where
  rejects : stoppedLast tr = true → RejectsAll s.st.modelId
  inactive : stoppedLast tr = true → ∀ e ∈ s.list quote models, e.active = false
  statuses : ∀ e ∈ s.list quote models, e.status ≠ "Stopped" →
    ∃ m, workerModel tr = some m ∧ m.id = e.id

/-! ## What `model_id` is -/

theorem workerModel_append {ev tr : List Event} (h : ∀ e ∈ ev, e.isSpawning = false) :
    workerModel (ev ++ tr) = workerModel tr := by
  apply ignores_append
  intro e he before
  cases e with
  | spawning caller m => exact absurd (h _ he) (by simp [Event.isSpawning])
  | _ => rfl

/-- **`model_id` is the model of the last announced start**, in every run. -/
theorem modelId_of_run {cfg : Config} {ok : List Event → Sup → Act → Prop} {tr : List Event}
    {s : Sup} (h : (supervisor cfg).Run ok tr s) :
    s.st.modelId = (workerModel tr).map Model.id := by
  refine h.invariant (I := fun tr s => s.st.modelId = (workerModel tr).map Model.id) ?_ ?_
  · rintro s ⟨autostart, rfl⟩
    rfl
  · intro tr s a s' ev _ _ hs ih
    rcases (step_cases hs).modelId with ⟨hsame, hev⟩ | ⟨caller, m, hid, rfl⟩
    · rw [hsame, ih, workerModel_append hev]
    · rw [hid]
      rfl

/-- The gate rejects everything just when no model is active. -/
theorem rejectsAll_iff (active : Option String) : RejectsAll active ↔ active = none := by
  constructor
  · intro h
    cases active with
    | none => rfl
    | some a => exact absurd (h "") (modelGate_some_ne a "")
  · rintro rfl reqModel
    exact modelGate_none reqModel

/-- The statuses are right just when the worker is stopped or no other model is listed. -/
theorem statuses_iff {s : Sup} {quote : String → String} {models : List Model}
    {worker : Option Model} :
    (∀ e ∈ s.list quote models, e.status ≠ "Stopped" → ∃ m, worker = some m ∧ m.id = e.id) ↔
      s.st.status = .stopped ∨ ∀ m ∈ models, ∃ w, worker = some w ∧ w.id = m.id := by
  have htext : s.st.status.debug quote = "Stopped" ↔ s.st.status = .stopped :=
    s.st.status.debug_eq_stopped quote
  constructor
  · intro h
    by_cases hst : s.st.status = .stopped
    · exact .inl hst
    · right
      intro m hm
      exact h _ (List.mem_map_of_mem hm) fun htxt => hst (htext.mp htxt)
  · rintro (hst | hall) e he hne
    · obtain ⟨m, -, rfl⟩ := List.mem_map.mp he
      exact absurd (htext.mpr hst) hne
    · obtain ⟨m, hm, rfl⟩ := List.mem_map.mp he
      exact hall m hm

/-! ## Results -/

/-- **When the consumers agree**: after a stop no start must ever have been announced, and the
worker must be stopped or the only one on the list. -/
theorem consumers_agree_iff {cfg : Config} {ok : List Event → Sup → Act → Prop}
    {tr : List Event} {s : Sup} (h : (supervisor cfg).Run ok tr s) (quote : String → String)
    (models : List Model) :
    ConsumersAgree quote tr s models ↔
      (stoppedLast tr = true → workerModel tr = none) ∧
        (s.st.status = .stopped ∨
          ∀ m ∈ models, ∃ w, workerModel tr = some w ∧ w.id = m.id) := by
  have hid := modelId_of_run h
  constructor
  · intro hagree
    refine ⟨fun hstop => ?_, statuses_iff.mp hagree.statuses⟩
    have hnone : s.st.modelId = none := (rejectsAll_iff _).mp (hagree.rejects hstop)
    exact Option.map_eq_none_iff.mp (hid.symm.trans hnone)
  · rintro ⟨hnever, hstatus⟩
    have hnone : stoppedLast tr = true → s.st.modelId = none := by
      intro hstop
      rw [hid, hnever hstop]
      rfl
    refine ⟨fun hstop => (rejectsAll_iff _).mpr (hnone hstop), fun hstop e he => ?_,
      statuses_iff.mpr hstatus⟩
    obtain ⟨m, -, rfl⟩ := List.mem_map.mp he
    show (s.st.modelId == some m.id) = false
    rw [hnone hstop]
    rfl

/-- A model starts, and it is the only one on the list. -/
theorem consumers_agree_iff_single :
    ∃ tr s, (supervisor sampleConfig).Run Anything tr s ∧ s.st.status = .starting ∧
      ∀ quote, ConsumersAgree quote tr s [modelA] := by
  have hreach := Run.reaches (supervisor sampleConfig) Anything (startFully modelA 7)
    (fun tr s => s.st.status = .starting ∧ stoppedLast tr = false ∧ workerModel tr = some modelA)
    ⟨none, rfl⟩ (admits_anything _ _ _) (by decide)
  obtain ⟨tr, s, hrun, hp⟩ := hreach
  obtain ⟨hstarting, hlast, hworker⟩ := of_decide_eq_true hp
  refine ⟨tr, s, hrun, hstarting, fun quote => ?_⟩
  refine (consumers_agree_iff hrun quote [modelA]).mpr ⟨fun hstop => ?_, .inr fun m hm => ?_⟩
  · rw [hlast] at hstop
    exact absurd hstop Bool.false_ne_true
  · obtain rfl : m = modelA := by simpa using hm
    exact ⟨modelA, hworker, rfl⟩

/-- **A stopped model stays active**: after a stop the gate lets a request for the model
pass, and the list shows the model as active. -/
theorem stopped_model_stays_active :
    ∃ tr s, (supervisor sampleConfig).Run (Orderly sampleConfig) tr s ∧
      ∀ quote models, ¬ ConsumersAgree quote tr s models := by
  have hreach := Run.reaches (supervisor sampleConfig) (Orderly sampleConfig)
    (startFully modelA 7 ++ [.callStop, .grant, .run, .run, .run, .exit 0, .reap 0,
      .waitSection 0, .run, .run, .run])
    (fun tr s => stoppedLast tr = true ∧ s.st.modelId = some "a") ⟨none, rfl⟩
    (by decide) (by decide)
  obtain ⟨tr, s, hrun, hp⟩ := hreach
  obtain ⟨hstop, hid⟩ := of_decide_eq_true hp
  refine ⟨tr, s, hrun, fun quote models hagree => ?_⟩
  have hgate := hagree.rejects hstop "a"
  rw [hid] at hgate
  exact absurd hgate (modelGate_some_ne "a" "a")

end LlmCtl
