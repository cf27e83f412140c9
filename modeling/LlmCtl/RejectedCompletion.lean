/-
# Has a rejected completion no effect? (`proxy.rs`)

Before it contacts the worker, `handle_completion` turns a request away at five points: the size
of the body, its JSON, no model, the wrong model, and another completion in flight.  The first
four leave everything as it was.  The busy gate comes after the activity marker, which is to be
the time of the last accepted completion; a completion that is turned away there is noted like an
accepted one, unless the marker shows the same time already.
-/
import LlmCtl.ApiGuard

namespace LlmCtl

/-- The replies of a completion that is turned away before the worker is contacted. -/
def Reply.rejects : Reply → Bool
  | .json status _ => decide (status ∈ [413, 400, 503, 409])
  | _ => false

namespace Api

open Resumption

/-! ## The property -/

/-- **A rejected completion has no effect** in a state: whatever the environment says, the state is
the same afterwards. -/
def RejectionHasNoEffect (env : ApiEnv) (req : Request) (s : AppState) : Prop :=
  ∀ reply s', (handleCompletion env req).Runs s reply s' → reply.rejects = true → s' = s

/-! ## The condition -/

/-- The request passes the model gate, and another completion is in flight. -/
def TurnedAwayBusy (env : ApiEnv) (req : Request) (s : AppState) : Prop :=
  s.busy = true ∧ ∃ body model, bodyOf env.parse req.body = .json body ∧
    modelGate s.sup.st.modelId (reqModel body) = .ok model

/-- The activity marker shows the present time. -/
def MarkerUpToDate (s : AppState) : Prop := s.sup.st.lastRequestAt = some s.sup.clock

/-! ## What the handler replies -/

theorem rejects_busy : (errJson busyReply).rejects = true := rfl

/-- **Every error before the worker is contacted is a rejection.** -/
theorem rejects_of_completionRequest {env : ProxyEnv} {base : List UInt8} {req : Request}
    {r : ErrorReply} (h : completionRequest env base req = .error r) :
    (errJson r).rejects = true := by
  unfold completionRequest at h
  cases hbody : bodyOf env.parse req.body with
  | tooLarge =>
    rw [hbody] at h
    obtain rfl := Except.error.inj h
    rfl
  | invalid e =>
    rw [hbody] at h
    obtain rfl := Except.error.inj h
    rfl
  | json body =>
    simp only [hbody, readBody] at h
    split at h
    · next r' hgate =>
      obtain rfl := Except.error.inj h
      unfold modelGate at hgate
      split at hgate
      · obtain rfl := Except.error.inj hgate
        rfl
      · split at hgate
        · obtain rfl := Except.error.inj hgate
          rfl
        · exact absurd hgate (by simp)
    · split at h
      · obtain rfl := Except.error.inj h
        exact rejects_busy
      · exact absurd h (by simp)

/-- **Once the worker is contacted there is no rejection**: the reply is the worker's, or a 502. -/
theorem completeTurn_rejects (env : ApiEnv) (req : Request) (body : Json) (model : String) :
    (completeTurn env req body model).Returns fun reply => reply.rejects = false := by
  refine returns_bind fun sessionId => returns_bind fun answer => ?_
  cases answer with
  | error e => exact returns_bind fun _ => returns_pure rfl
  | ok u =>
    by_cases hstream : reqStream body = true
    · simp only [hstream, if_true]
      exact returns_bind fun _ => returns_bind fun _ => returns_pure rfl
    · simp only [hstream]
      refine returns_bind fun bytes => ?_
      cases bytes with
      | none => exact returns_bind fun _ => returns_pure rfl
      | some bytes => exact returns_bind fun _ => returns_bind fun _ => returns_pure rfl

/-- **What a rejected completion does**: nothing, or it sets the marker and is turned away. -/
theorem handleCompletion_rejected {env : ApiEnv} {req : Request} {s s' : AppState} {reply : Reply}
    (h : (handleCompletion env req).Runs s reply s') (hrej : reply.rejects = true) :
    s' = s ∨ (TurnedAwayBusy env req s ∧
      s' = onWorker (fun st => st.markRequest s.sup.clock) s) := by
  unfold handleCompletion at h
  cases hbody : bodyOf env.parse req.body with
  | tooLarge =>
    rw [hbody] at h
    cases h
    exact .inl rfl
  | invalid e =>
    rw [hbody] at h
    cases h
    exact .inl rfl
  | json body =>
    rw [hbody] at h
    obtain ⟨active, t, hread, hnext⟩ := h.of_bind
    obtain ⟨rfl, rfl⟩ : active = s.sup.st.modelId ∧ t = s := by
      cases hread with
      | access hdone =>
        cases hdone
        exact ⟨rfl, rfl⟩
    cases hgate : modelGate t.sup.st.modelId (reqModel body) with
    | error r =>
      rw [hgate] at hnext
      cases hnext
      exact .inl rfl
    | ok model =>
      rw [hgate] at hnext
      obtain ⟨_, u, hwrite, hflag⟩ := hnext.of_bind
      obtain rfl : u = onWorker (fun st => st.markRequest t.sup.clock) t := by
        cases hwrite with
        | access hdone =>
          cases hdone
          rfl
      cases hflag with
      | access hafter =>
        by_cases hbusy : t.busy = true
        · have hturned : (pure (errJson busyReply) : ApiTask Reply).Runs
              { onWorker (fun st => st.markRequest t.sup.clock) t with busy := true } reply s' := by
            simpa [onWorker, hbusy] using hafter
          cases hturned
          refine .inr ⟨⟨hbusy, body, model, hbody, hgate⟩, ?_⟩
          rw [← hbusy]
          rfl
        · have haccepted : (completeTurn env req body model).Runs
              { onWorker (fun st => st.markRequest t.sup.clock) t with busy := true } reply s' := by
            simpa [onWorker, hbusy] using hafter
          rw [completeTurn_rejects env req body model _ _ _ haccepted] at hrej
          exact absurd hrej (by simp)

/-! ## Results -/

/-- The marker is written over by itself. -/
theorem onWorker_markRequest_eq_iff (s : AppState) :
    onWorker (fun st => st.markRequest s.sup.clock) s = s ↔ MarkerUpToDate s := by
  constructor
  · intro h
    have hst := congrArg (fun s : AppState => s.sup.st.lastRequestAt) h
    exact hst.symm
  · intro h
    show ({ s with sup := { s.sup with st :=
      { s.sup.st with lastRequestAt := some s.sup.clock } } } : AppState) = s
    rw [← h]

/-- **A rejected completion has no effect just if the busy gate is not what rejects it**, or the
marker is up to date. -/
theorem rejection_has_no_effect_iff (env : ApiEnv) (req : Request) (s : AppState) :
    RejectionHasNoEffect env req s ↔ (TurnedAwayBusy env req s → MarkerUpToDate s) := by
  constructor
  · rintro h ⟨hbusy, body, model, hbody, hgate⟩
    have hrun := runs_handleCompletion hbody hgate hbusy
    exact (onWorker_markRequest_eq_iff s).mp (h _ _ hrun rejects_busy)
  · intro h reply s' hrun hrej
    rcases handleCompletion_rejected hrun hrej with hsame | ⟨hbusy, hmarked⟩
    · exact hsame
    · rw [hmarked]
      exact (onWorker_markRequest_eq_iff s).mpr (h hbusy)

/-- Libraries that read an object without members, and no other body. -/
def emptyObjectEnv : ApiEnv :=
  { bareEnv with parse := fun b => if b = asciiBytes "{}" then .ok (.obj []) else bareEnv.parse b }

/-- A completion for whichever model is active. -/
def emptyCompletion : Request :=
  { bareGet "/v1/chat/completions" (by decide) with
    method := .post
    body := asciiBytes "{}" }

/-- **A completion that is turned away is noted**, although none was accepted. -/
theorem busy_rejection_is_noted :
    ¬ RejectionHasNoEffect emptyObjectEnv emptyCompletion (servingState "a" none) := by
  intro h
  have hsmall : ¬ maxBody < emptyCompletion.body.length := by decide
  have hbody : bodyOf emptyObjectEnv.parse emptyCompletion.body = .json (.obj []) := by
    rw [bodyOf, if_neg hsmall]
    simp only [emptyObjectEnv, emptyCompletion, ↓reduceIte]
  have hgate : modelGate (servingState "a" none).sup.st.modelId (reqModel (.obj [])) = .ok "a" :=
    rfl
  have hsame := h _ _ (runs_handleCompletion hbody hgate rfl) rejects_busy
  have hmarked := congrArg (fun s : AppState => s.sup.st.lastRequestAt) hsame
  exact absurd hmarked (by simp [onWorker, servingState, WorkerState.new])

end Api

end LlmCtl
