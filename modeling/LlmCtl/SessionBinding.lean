/-
# The session of a completion (`proxy.rs`, `main.rs`)

A completion takes the id of its session from its own header, or else from the hint that
`/api/session-active` left behind; `resolve_session` turns it into the id under which the
session and later the turn are stored.

A header that cannot be read as visible ASCII counts as no header at all, and the hint of
another client takes its place.
-/
import LlmCtl.Rollups

namespace LlmCtl

open EventSystem ReadCommitted

/-! ## The front of the store -/

/-- A completion that has reached its session binding: what it read, its lookup of the session
(a transaction of the store), what the lookup returned, and whether the turn went to the
store. -/
structure Bound where
  header : Option String
  hint : Option String
  model : String
  random : UInt64
  lookup : ℕ
  sessionId : Option String
  recorded : Bool

namespace Bound

/-- The id that `handle_completion` passes on: the header if it can be read, else the hint. -/
def clientId (b : Bound) : Option String := (b.header.bind headerText).or b.hint

/-- The id that the lookup returns. -/
def resolved (b : Bound) : String := resolvedId b.clientId b.random

end Bound

/-- The hint, the store and the completions in front of it.  `commits` lists the transactions
that have committed. -/
structure Front where
  hint : Option String
  db : StoreState
  commits : List ℕ
  bound : List Bound

inductive FrontAct where
  /-- `/api/session-active` is posted. -/
  | sessionActive (body : Json)
  /-- A completion reads the hint and looks its session up. -/
  | bind (header : Option String) (model : String) (random : UInt64) (now : ℚ)
  /-- The lookup returns, or fails or times out. -/
  | lookedUp (i : ℕ) (found : Bool)
  /-- The turn of a completion goes to the store; its session id is that of the lookup. -/
  | record (i : ℕ) (turn : TurnRow) (now : ℚ)
  /-- `/api/session-test`. -/
  | sessionTest (now : ℚ)
  /-- The store goes on. -/
  | store (a : Act StoreCall)

inductive FrontEvent where
  | store (e : Event StoreError)
  /-- A transaction begins that writes the session `sid` for completion `i`. -/
  | wrote (i : ℕ) (sid : String)

/-- Does completion `i` begin to write the session `sid`? -/
def FrontEvent.isWrite (i : ℕ) (sid : String) : FrontEvent → Bool
  | .wrote j id => j == i && id == sid
  | .store _ => false

theorem FrontEvent.isWrite_iff {i : ℕ} {sid : String} {e : FrontEvent} :
    e.isWrite i sid = true ↔ e = .wrote i sid := by
  cases e <;> simp [FrontEvent.isWrite]

/-- `handle_session_active`: the hint in a request. -/
def sessionHint (body : Json) : Option String :=
  ((body.get? "id").bind Json.asStr).filter fun id => id != ""

/-- The transaction that a step of the store commits. -/
def committedTx : Act StoreCall → List ℕ
  | .commit i => [i]
  | _ => []

namespace Front

/-- A step of the store. -/
def onStore (f : Front) (a : Act StoreCall) : Option (Front × List FrontEvent) :=
  ((storeSystem sessionLockKey).step f.db a).map fun r =>
    ({ f with db := r.1, commits := committedTx a ++ f.commits }, r.2.map .store)

/-- A call of the store begins. -/
def call (f : Front) (c : StoreCall) : Option (Front × List FrontEvent) := f.onStore (.begin c)

/-- A completion has moved on. -/
def setBound (f : Front) (i : ℕ) (b : Bound) : Front :=
  { f with bound := f.bound.modify i fun _ => b }

end Front

/-- One step at the front of the store. -/
def frontStep (f : Front) : FrontAct → Option (Front × List FrontEvent)
  | .sessionActive body => some ({ f with hint := sessionHint body }, [])
  | .bind header model random now =>
    let b : Bound := ⟨header, f.hint, model, random, f.db.txs.length, none, false⟩
    (f.call (.resolveSession b.clientId model random now)).map fun r =>
      ({ r.1 with bound := r.1.bound ++ [b] }, .wrote f.bound.length b.resolved :: r.2)
  | .lookedUp i found =>
    match f.bound[i]? with
    | some b =>
      if b.sessionId.isSome then none
      else if found then
        if f.commits.contains b.lookup then
          some (f.setBound i { b with sessionId := some b.resolved }, [])
        else none
      else some (f.setBound i { b with sessionId := some "" }, [])
    | none => none
  | .record i turn now =>
    match f.bound[i]? with
    | some b =>
      match b.sessionId with
      | some sid =>
        -- Without a session nothing is recorded.
        if sid = "" ∨ b.recorded then none
        else
          let row := { turn with sessionId := sid, requestModel := b.model }
          (f.call (.recordTurn row now)).map fun r =>
            (r.1.setBound i { b with recorded := true }, .wrote i sid :: r.2)
      | none => none
    | none => none
  | .sessionTest now => f.call (.recordTurn (.fake "m3-test-session" "lfm2.5-8b") now)
  | .store a =>
    match a with
    | .begin _ => none
    | a => f.onStore a

/-- The front of the store, from the start of the daemon on. -/
def sessionFront : EventSystem Front FrontAct FrontEvent where
  init := fun f => f = ⟨none, ⟨Tables.empty, []⟩, [], []⟩
  step := frontStep

/-! ## Which session a completion chose -/

/-- The id that a completion chose: its header if there is one, else the hint; nothing when that
is not a session id after trimming. -/
def Bound.chosen (b : Bound) : Option String := (b.header.or b.hint).bind clientSession

/-- The header does not change whose session it is: there is none, or it can be read, or it
stands for the same session as the hint, or for none as the hint. -/
def HeaderHarmless (header hint : Option String) : Prop :=
  ∀ value, header = some value →
    headerText value = some value ∨ clientSession value = hint.bind clientSession

instance (header hint : Option String) : Decidable (HeaderHarmless header hint) :=
  decidable_of_iff (header.all (fun value => decide (headerText value = some value ∨
    clientSession value = hint.bind clientSession)) = true) (by
      cases header <;> simp [HeaderHarmless])

theorem headerText_eq {value text : String} (h : headerText value = some text) : text = value := by
  unfold headerText at h
  split at h
  · exact (Option.some.inj h).symm
  · exact absurd h (by simp)

/-- **The id of a harmless completion** is the one it chose, or else a generated one. -/
theorem Bound.resolved_eq {b : Bound} (h : HeaderHarmless b.header b.hint) :
    b.resolved = b.chosen.getD (genSessionId b.random) := by
  unfold Bound.resolved Bound.chosen resolvedId Bound.clientId
  cases hh : b.header with
  | none => rfl
  | some value =>
    cases ht : headerText value with
    | some text =>
      obtain rfl := headerText_eq ht
      simp [ht]
    | none =>
      -- The header is there but cannot be read.
      have hsame : clientSession value = b.hint.bind clientSession := by
        rcases h value hh with hread | hsame
        · exact absurd (ht.symm.trans hread) (by simp)
        · exact hsame
      simp [ht, hsame]

/-! ## What a step can do -/

/-- The same completion, further on. -/
structure Bound.Same (b b' : Bound) : Prop where
  header : b'.header = b.header
  hint : b'.hint = b.hint
  random : b'.random = b.random

theorem Bound.Same.resolved {b b' : Bound} (h : b.Same b') : b'.resolved = b.resolved := by
  rw [Bound.resolved, Bound.clientId, h.header, h.hint, h.random]
  rfl

/-- What a step does to the completions, and under which id it lets one of them write. -/
inductive FrontChange (f : Front) (a : FrontAct) (f' : Front) (ev : List FrontEvent) : Prop
  | kept (hb : f'.bound = f.bound) (hev : ∀ i sid, .wrote i sid ∉ ev)
  | bound (b : Bound) (hb : f'.bound = f.bound ++ [b]) (hid : b.sessionId = none)
      (hact : ∃ now, a = .bind b.header b.model b.random now) (hhint : b.hint = f.hint)
      (hev : ∀ i sid, .wrote i sid ∈ ev → i = f.bound.length ∧ sid = b.resolved)
  | moved (i : ℕ) (b b' : Bound) (hi : f.bound[i]? = some b)
      (hb : f'.bound = (f.setBound i b').bound) (hsame : b.Same b')
      (hid : ∀ sid, b'.sessionId = some sid → sid = "" ∨ sid = b.resolved ∨ b.sessionId = some sid)
      (hev : ∀ j sid, .wrote j sid ∈ ev → j = i ∧ b.sessionId = some sid ∧ sid ≠ "")

/-- A step of the store leaves the completions alone. -/
theorem Front.onStore_eq {f f' : Front} {a : Act StoreCall} {ev : List FrontEvent}
    (h : f.onStore a = some (f', ev)) :
    f'.bound = f.bound ∧ ∃ evs, (storeSystem sessionLockKey).step f.db a = some (f'.db, evs) ∧
      ev = evs.map .store := by
  obtain ⟨⟨db, evs⟩, hstep, hr⟩ := Option.map_eq_some_iff.mp h
  simp only [Prod.mk.injEq] at hr
  obtain ⟨rfl, rfl⟩ := hr
  exact ⟨rfl, evs, hstep, rfl⟩

theorem not_wrote_of_store {evs : List (Event StoreError)} {i : ℕ} {sid : String} :
    FrontEvent.wrote i sid ∉ evs.map FrontEvent.store := by
  simp

/-- **Inversion of the front's step.** -/
theorem frontStep_change {f f' : Front} {a : FrontAct} {ev : List FrontEvent}
    (h : frontStep f a = some (f', ev)) : FrontChange f a f' ev := by
  cases a with
  | sessionActive body =>
    simp only [frontStep, Option.some.injEq, Prod.mk.injEq] at h
    obtain ⟨rfl, rfl⟩ := h
    exact .kept rfl fun i sid => List.not_mem_nil
  | bind header model random now =>
    simp only [frontStep] at h
    obtain ⟨⟨g, gev⟩, hcall, hr⟩ := Option.map_eq_some_iff.mp h
    obtain ⟨hb, evs, -, rfl⟩ := Front.onStore_eq hcall
    simp only [Prod.mk.injEq] at hr
    obtain ⟨rfl, rfl⟩ := hr
    refine .bound _ (by rw [hb]) rfl ⟨now, rfl⟩ rfl fun i sid hmem => ?_
    rcases List.mem_cons.mp hmem with heq | hmem
    · simpa using heq
    · exact absurd hmem not_wrote_of_store
  | lookedUp i found =>
    simp only [frontStep] at h
    split at h
    · next b hi =>
      split at h
      · exact absurd h (by simp)
      · next hnone =>
        split at h
        · split at h
          · simp only [Option.some.injEq, Prod.mk.injEq] at h
            obtain ⟨rfl, rfl⟩ := h
            refine .moved i b _ hi rfl ⟨rfl, rfl, rfl⟩ (fun sid hsid => ?_)
              fun j sid hmem => absurd hmem List.not_mem_nil
            exact .inr (.inl (Option.some.inj hsid).symm)
          · exact absurd h (by simp)
        · simp only [Option.some.injEq, Prod.mk.injEq] at h
          obtain ⟨rfl, rfl⟩ := h
          refine .moved i b _ hi rfl ⟨rfl, rfl, rfl⟩ (fun sid hsid => ?_)
            fun j sid hmem => absurd hmem List.not_mem_nil
          exact .inl (Option.some.inj hsid).symm
    · exact absurd h (by simp)
  | record i turn now =>
    simp only [frontStep] at h
    split at h
    · next b hi =>
      split at h
      · next sid hsid =>
        split at h
        · exact absurd h (by simp)
        · next hgo =>
          obtain ⟨⟨g, gev⟩, hcall, hr⟩ := Option.map_eq_some_iff.mp h
          obtain ⟨hb, evs, -, rfl⟩ := Front.onStore_eq hcall
          simp only [Prod.mk.injEq] at hr
          obtain ⟨rfl, rfl⟩ := hr
          refine .moved i b { b with recorded := true } hi ?_ ⟨rfl, rfl, rfl⟩
            (fun sid' hsid' => .inr (.inr hsid')) fun j sid' hmem => ?_
          · simp only [Front.setBound, hb]
          · rcases List.mem_cons.mp hmem with heq | hmem
            · obtain ⟨rfl, rfl⟩ := FrontEvent.wrote.inj heq
              exact ⟨rfl, hsid, fun hempty => hgo (.inl hempty)⟩
            · exact absurd hmem not_wrote_of_store
      · exact absurd h (by simp)
    · exact absurd h (by simp)
  | sessionTest now =>
    simp only [frontStep] at h
    obtain ⟨hb, evs, -, rfl⟩ := Front.onStore_eq h
    exact .kept hb fun i sid => not_wrote_of_store
  | store a =>
    simp only [frontStep] at h
    split at h
    · exact absurd h (by simp)
    · obtain ⟨hb, evs, -, rfl⟩ := Front.onStore_eq h
      exact .kept hb fun i sid => not_wrote_of_store

/-! ## The ids that are written -/

/-- What is known of the completions: each wrote under the id that was resolved for it. -/
structure FrontOk (tr : List FrontEvent) (f : Front) : Prop where
  looked : ∀ (i : ℕ) (b : Bound) (sid : String), f.bound[i]? = some b → b.sessionId = some sid →
    sid = "" ∨ sid = b.resolved
  wrote : ∀ i sid, .wrote i sid ∈ tr → ∃ b, f.bound[i]? = some b ∧ sid = b.resolved

/-- A step keeps what is known. -/
theorem FrontChange.ok {tr ev : List FrontEvent} {f f' : Front} {a : FrontAct}
    (h : FrontChange f a f' ev) (hok : FrontOk tr f) : FrontOk (ev ++ tr) f' := by
  cases h with
  | kept hb hev =>
    refine ⟨fun i b sid hi => hok.looked i b sid (hb ▸ hi), fun i sid hmem => ?_⟩
    rw [hb]
    rcases List.mem_append.mp hmem with hmem | hmem
    · exact absurd hmem (hev i sid)
    · exact hok.wrote i sid hmem
  | bound b hb hid _ _ hev =>
    refine ⟨fun i b' sid hi hsid => ?_, fun i sid hmem => ?_⟩
    · rw [hb] at hi
      rcases ListTable.getElem?_concat_cases hi with hi | ⟨-, rfl⟩
      · exact hok.looked i b' sid hi hsid
      · exact absurd (hid.symm.trans hsid) (by simp)
    · rw [hb]
      rcases List.mem_append.mp hmem with hmem | hmem
      · obtain ⟨rfl, rfl⟩ := hev i sid hmem
        exact ⟨b, by simp, rfl⟩
      · obtain ⟨b', hi, hsid⟩ := hok.wrote i sid hmem
        exact ⟨b', ListTable.getElem?_concat_of_some hi, hsid⟩
  | moved i b b' hi hb hsame hid hev =>
    have hupd := ListTable.updates_modify (f := fun _ => b') hi
    rw [Front.setBound] at hb
    refine ⟨fun j x sid hj hsid => ?_, fun j sid hmem => ?_⟩
    · rw [hb] at hj
      rcases hupd.cases hj with ⟨rfl, rfl⟩ | ⟨-, hj⟩
      · rw [hsame.resolved]
        rcases hid sid hsid with hsid | hsid | hsid
        · exact .inl hsid
        · exact .inr hsid
        · exact hok.looked j b sid hi hsid
      · exact hok.looked j x sid hj hsid
    · rw [hb]
      have hwrote : ∃ x, f.bound[j]? = some x ∧ sid = x.resolved := by
        rcases List.mem_append.mp hmem with hmem | hmem
        · obtain ⟨rfl, hsid, hne⟩ := hev j sid hmem
          exact ⟨b, hi, (hok.looked j b sid hi hsid).resolve_left hne⟩
        · exact hok.wrote j sid hmem
      obtain ⟨x, hx, hsid⟩ := hwrote
      by_cases hj : j = i
      · subst hj
        obtain rfl := Option.some.inj (hi.symm.trans hx)
        exact ⟨b', hupd.self, hsid.trans hsame.resolved.symm⟩
      · exact ⟨x, (hupd.other j hj).trans hx, hsid⟩

section Run

variable {ok : List FrontEvent → Front → FrontAct → Prop} {tr : List FrontEvent} {f : Front}

theorem frontOk_of_run (h : sessionFront.Run ok tr f) : FrontOk tr f := by
  refine h.invariant (I := fun tr f => FrontOk tr f) ?_ ?_
  · rintro _ rfl
    exact ⟨fun i b sid hi => absurd hi (by simp), fun i sid hmem => absurd hmem List.not_mem_nil⟩
  · intro tr f a f' ev _ _ hs hok
    exact (frontStep_change hs).ok hok

/-! ## The store behind the front -/

/-- What the store does in a run of the front. -/
def storeTrace (tr : List FrontEvent) : List (Event StoreError) :=
  tr.filterMap fun
    | .store e => some e
    | .wrote _ _ => none

theorem storeTrace_map (evs : List (Event StoreError)) :
    storeTrace (evs.map .store) = evs := by
  rw [storeTrace, List.filterMap_map]
  exact List.filterMap_some

theorem storeTrace_wrote (i : ℕ) (sid : String) (ev : List FrontEvent) :
    storeTrace (.wrote i sid :: ev) = storeTrace ev := rfl

/-- Calls that write session ids only. -/
def WritesIds (_ : List (Event StoreError)) (_ : StoreState) (a : Act StoreCall) : Prop :=
  ∀ r, a = .begin r → IsSessionId r.sessionId

/-- A step of the front is one of the store, which writes session ids only, or none. -/
theorem frontStep_store {f' : Front} {a : FrontAct} {ev : List FrontEvent} (hok : FrontOk tr f)
    (h : frontStep f a = some (f', ev)) :
    (f'.db = f.db ∧ storeTrace ev = []) ∨
      ∃ b, WritesIds (storeTrace tr) f.db b ∧
        (storeSystem sessionLockKey).step f.db b = some (f'.db, storeTrace ev) := by
  cases a with
  | sessionActive body =>
    simp only [frontStep, Option.some.injEq, Prod.mk.injEq] at h
    obtain ⟨rfl, rfl⟩ := h
    exact .inl ⟨rfl, rfl⟩
  | bind header model random now =>
    simp only [frontStep] at h
    obtain ⟨⟨g, gev⟩, hcall, hr⟩ := Option.map_eq_some_iff.mp h
    obtain ⟨-, evs, hstep, rfl⟩ := Front.onStore_eq hcall
    simp only [Prod.mk.injEq] at hr
    obtain ⟨rfl, rfl⟩ := hr
    refine .inr ⟨_, fun r hr => ?_, hstep.trans (by rw [storeTrace_wrote, storeTrace_map])⟩
    rw [← Act.begin.inj hr]
    exact isSessionId_resolved _ _
  | lookedUp i found =>
    left
    simp only [frontStep] at h
    split at h
    · split at h
      · exact absurd h (by simp)
      · split at h
        · split at h
          · simp only [Option.some.injEq, Prod.mk.injEq] at h
            obtain ⟨rfl, rfl⟩ := h
            exact ⟨rfl, rfl⟩
          · exact absurd h (by simp)
        · simp only [Option.some.injEq, Prod.mk.injEq] at h
          obtain ⟨rfl, rfl⟩ := h
          exact ⟨rfl, rfl⟩
    · exact absurd h (by simp)
  | record i turn now =>
    simp only [frontStep] at h
    split at h
    · next b hi =>
      split at h
      · next sid hsid =>
        split at h
        · exact absurd h (by simp)
        · next hgo =>
          obtain ⟨⟨g, gev⟩, hcall, hr⟩ := Option.map_eq_some_iff.mp h
          obtain ⟨-, evs, hstep, rfl⟩ := Front.onStore_eq hcall
          simp only [Prod.mk.injEq] at hr
          obtain ⟨rfl, rfl⟩ := hr
          refine .inr ⟨_, fun r hr => ?_, hstep.trans ?_⟩
          rotate_left
          · rw [storeTrace_wrote, storeTrace_map]
            rfl
          have hres : sid = b.resolved :=
            (hok.looked i b sid hi hsid).resolve_left fun hempty => hgo (.inl hempty)
          rw [← Act.begin.inj hr]
          exact hres ▸ isSessionId_resolved b.clientId b.random
      · exact absurd h (by simp)
    · exact absurd h (by simp)
  | sessionTest now =>
    simp only [frontStep] at h
    obtain ⟨-, evs, hstep, rfl⟩ := Front.onStore_eq h
    refine .inr ⟨_, fun r hr => ?_, hstep.trans (by rw [storeTrace_map])⟩
    rw [← Act.begin.inj hr]
    show IsSessionId "m3-test-session"
    exact isSessionId_of_valid (by decide)
  | store a =>
    simp only [frontStep] at h
    split at h
    · exact absurd h (by simp)
    · next hne =>
      obtain ⟨-, evs, hstep, rfl⟩ := Front.onStore_eq h
      exact .inr ⟨_, fun r hr => absurd hr (hne r), hstep.trans (by rw [storeTrace_map])⟩

/-- **Every id in the tables is a session id**, whatever the clients send. -/
theorem stored_ids_of_run (h : sessionFront.Run ok tr f) :
    f.db.committed.Allowed (fun t => IsSessionId t.sessionId) IsSessionId := by
  have hstore : (storeSystem sessionLockKey).Run WritesIds (storeTrace tr) f.db := by
    refine h.project Front.db storeTrace rfl (fun ev tr => List.filterMap_append) ?_ ?_
    · rintro _ rfl
      rfl
    · intro tr f a f' ev hr _ hs
      exact frontStep_store (frontOk_of_run hr) hs
  refine allowed_of_run sessionLockKey (fun _ _ r ho => ⟨ho r rfl, fun t ht => ?_⟩) hstore
  cases r with
  | resolveSession clientId model random now => exact absurd ht (by simp [StoreCall.turn?])
  | recordTurn turn now =>
    obtain rfl := Option.some.inj ht
    exact ho _ rfl

/-! ## Whose session it is -/

/-- Every completion that is bound comes with a harmless header. -/
def BindsHarmless (_ : List FrontEvent) (f : Front) : FrontAct → Prop
  | .bind header _ _ _ => HeaderHarmless header f.hint
  | _ => True

instance (tr : List FrontEvent) (f : Front) (a : FrontAct) : Decidable (BindsHarmless tr f a) :=
  match a with
  | .bind header _ _ _ => inferInstanceAs (Decidable (HeaderHarmless header f.hint))
  | .sessionActive _ | .lookedUp _ _ | .record _ _ _ | .sessionTest _ | .store _ => .isTrue trivial

theorem harmless_of_run (h : sessionFront.Run BindsHarmless tr f) {i : ℕ} {b : Bound}
    (hi : f.bound[i]? = some b) : HeaderHarmless b.header b.hint := by
  have hall : ∀ (i : ℕ) (b : Bound), f.bound[i]? = some b →
      HeaderHarmless b.header b.hint := by
    refine h.invariant (I := fun _ f => ∀ (i : ℕ) (b : Bound), f.bound[i]? = some b →
      HeaderHarmless b.header b.hint) ?_ ?_
    · rintro _ rfl i b hi
      exact absurd hi (by simp)
    · intro _ f a f' ev _ hbinds hs ih i b hi
      cases frontStep_change hs with
      | kept hb _ => exact ih i b (hb ▸ hi)
      | bound b₀ hb _ hact hhint _ =>
        rw [hb] at hi
        rcases ListTable.getElem?_concat_cases hi with hi | ⟨-, rfl⟩
        · exact ih i b hi
        · obtain ⟨now, hact⟩ := hact
          rw [hhint]
          subst hact
          exact hbinds
      | moved j b₀ b₁ hj hb hsame _ _ =>
        rw [hb, Front.setBound] at hi
        rcases (ListTable.updates_modify (f := fun _ => b₁) hj).cases hi with ⟨-, rfl⟩ | ⟨-, hi⟩
        · rw [hsame.header, hsame.hint]
          exact ih j b₀ hj
        · exact ih i b hi
  exact hall i b hi

/-- **Session ids are sanitised and keep clients apart**, as long as no header that cannot be
read takes the hint of another session. -/
theorem session_ids_isolate (h : sessionFront.Run BindsHarmless tr f) :
    f.db.committed.Allowed (fun t => IsSessionId t.sessionId) IsSessionId ∧
      (∀ i sid, .wrote i sid ∈ tr → ∃ b, f.bound[i]? = some b ∧
        (∀ id, b.chosen = some id → sid = id) ∧
        (b.chosen = none → sid = genSessionId b.random)) ∧
      ∀ i j sid sid' b b' id id', .wrote i sid ∈ tr → .wrote j sid' ∈ tr →
        f.bound[i]? = some b → f.bound[j]? = some b' →
        b.chosen = some id → b'.chosen = some id' → (sid = sid' ↔ id = id') := by
  have hwrote : ∀ i sid, .wrote i sid ∈ tr → ∃ b, f.bound[i]? = some b ∧
      (∀ id, b.chosen = some id → sid = id) ∧
      (b.chosen = none → sid = genSessionId b.random) := by
    intro i sid hmem
    obtain ⟨b, hi, hsid⟩ := (frontOk_of_run h).wrote i sid hmem
    rw [Bound.resolved_eq (harmless_of_run h hi)] at hsid
    refine ⟨b, hi, fun id hid => ?_, fun hnone => ?_⟩
    · rw [hsid, hid, Option.getD_some]
    · rw [hsid, hnone, Option.getD_none]
  refine ⟨stored_ids_of_run h, hwrote, ?_⟩
  intro i j sid sid' b b' id id' hi hj hb hb' hid hid'
  obtain ⟨x, hx, hxid, -⟩ := hwrote i sid hi
  obtain ⟨y, hy, hyid, -⟩ := hwrote j sid' hj
  obtain rfl := Option.some.inj (hb.symm.trans hx)
  obtain rfl := Option.some.inj (hb'.symm.trans hy)
  rw [hxid id hid, hyid id' hid']

end Run

/-- A completion in the session that its header names, with a turn to record. -/
def namedCompletion : List FrontAct :=
  [.bind (some " alice ") "a" 7 1, .store (.start 0), .store (.finish 0), .store (.commit 0),
    .lookedUp 0 true, .record 0 (.fake "" "a") 2]

theorem session_ids_isolate_named :
    ∃ tr f, sessionFront.Run BindsHarmless tr f ∧ .wrote 0 "alice" ∈ tr ∧
      ∃ b, f.bound[0]? = some b ∧ ∀ id, b.chosen = some id → "alice" = id := by
  obtain ⟨tr, f, h, hp⟩ := Run.reaches sessionFront BindsHarmless namedCompletion
    (fun tr _ => tr.any fun e => e.isWrite 0 "alice") rfl (by decide) (by decide)
  obtain ⟨e, hmem, he⟩ := List.any_eq_true.mp hp
  rw [FrontEvent.isWrite_iff] at he
  subst he
  obtain ⟨b, hb, hid, -⟩ := (session_ids_isolate h).2.1 0 "alice" hmem
  exact ⟨tr, f, h, hmem, b, hb, hid⟩

/-- The hint of another client stands when a completion comes with a header that cannot be
read. -/
def unreadableHeader : List FrontAct :=
  [.sessionActive (.obj [("id", .str "alice")]), .bind (some "é") "a" 7 1]

/-- **A completion with an unreadable header lands in the session of the hint.** -/
theorem unreadable_header_takes_hint :
    ¬ ∀ tr f, sessionFront.Run Anything tr f → ∀ i sid, .wrote i sid ∈ tr →
      ∃ b, f.bound[i]? = some b ∧ (∀ id, b.chosen = some id → sid = id) ∧
        (b.chosen = none → sid = genSessionId b.random) := by
  intro hall
  obtain ⟨tr, f, h, hp⟩ := Run.reaches sessionFront Anything unreadableHeader
    (fun tr f => (tr.any fun e => e.isWrite 0 "alice") && f.bound[0]?.any fun b : Bound =>
      decide (b.chosen = none ∧ "alice" ≠ genSessionId b.random)) rfl (admits_anything _ _ _)
    (by decide)
  simp only [Bool.and_eq_true, List.any_eq_true] at hp
  obtain ⟨⟨e, hmem, he⟩, hbound⟩ := hp
  rw [FrontEvent.isWrite_iff] at he
  subst he
  obtain ⟨b, hb, -, hgen⟩ := hall tr f h 0 "alice" hmem
  rw [hb, Option.any_some] at hbound
  obtain ⟨hnone, hne⟩ := of_decide_eq_true hbound
  exact hne (hgen hnone)

end LlmCtl
