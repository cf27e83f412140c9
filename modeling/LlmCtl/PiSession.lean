/-
# The session that pi reports (`llama-stats.ts`, `main.rs`)

The extension reports the session of its client with a POST that it does not wait for: the id
when a session starts or is resumed, an empty id when it shuts down.  The daemon keeps what the
report that arrived last says.  The reports carry no number, so they may arrive in another order
than they were sent in, and the end of one session can wipe out the beginning of the next.

So once no report is under way the hint is the session that the client is in, in every run in
which the report that was issued last also arrives last, and no session without an id follows one
that has been reported: that start reports nothing.
-/
import LlmCtl.SessionBinding

namespace LlmCtl

open EventSystem ReadCommitted

/-! ## The extension -/

/-- The body of a report. -/
def reportBody (id : String) : Json := .obj [("id", .str id)]

/-- `reportSession`: what `getSessionId` yields, if it is a string at all, becomes the current
session, and is reported unless it is empty. -/
def reportSession (sid : Option String) : Option String × Option Json :=
  match sid with
  | some sid => if sid = "" then (none, none) else (some sid, some (reportBody sid))
  | none => (none, none)

/-- `session_shutdown`. -/
def reportShutdown : Option String × Option Json := (none, some (reportBody ""))

/-! ## One client and the daemon -/

/-- The client's `currentSid`; the reports under way, with their numbers, and how many there have
been; the session that the last one was issued for, or none after a shutdown; and the daemon's
front. -/
structure PiDaemon where
  currentSid : Option String
  inFlight : List (ℕ × Json)
  issued : ℕ
  lastReport : Option String
  front : Front

inductive PiAct where
  /-- `session_start`, also when a session is resumed, with what `getSessionId` yields. -/
  | start (sid : Option String)
  /-- `session_shutdown`. -/
  | shutdown
  /-- A report arrives: any of those under way. -/
  | deliver (n : ℕ)
  /-- The daemon goes on. -/
  | front (a : FrontAct)

/-- The extension moves on, and may issue a report for a session. -/
def PiDaemon.report (s : PiDaemon) (r : Option String × Option Json) (session : Option String) :
    PiDaemon :=
  match r.2 with
  | some body =>
    { s with
      currentSid := r.1
      inFlight := s.inFlight ++ [(s.issued, body)]
      issued := s.issued + 1
      lastReport := session }
  | none => { s with currentSid := r.1 }

/-- One step.  No other client posts to `/api/session-active`. -/
def piStep (s : PiDaemon) : PiAct → Option (PiDaemon × List FrontEvent)
  | .start sid => some (s.report (reportSession sid) sid, [])
  | .shutdown => some (s.report reportShutdown none, [])
  | .deliver n =>
    match s.inFlight[n]? with
    | some (_, body) =>
      (frontStep s.front (.sessionActive body)).map fun r =>
        ({ s with inFlight := s.inFlight.eraseIdx n, front := r.1 }, r.2)
    | none => none
  | .front a =>
    match a with
    | .sessionActive _ => none
    | a => (frontStep s.front a).map fun r => ({ s with front := r.1 }, r.2)

/-- Once no report is under way, the hint is the session of the last report, or none after a
shutdown; and this is the session that the client is in. -/
structure PiDaemon.Converged (s : PiDaemon) : Prop where
  reported : s.inFlight = [] → s.front.hint = s.lastReport
  current : s.inFlight = [] → s.front.hint = s.currentSid

/-- The report whose arrival leaves none under way is the one that was issued last; and a session
without an id starts only where none has been reported. -/
def InOrder (_ : List FrontEvent) (s : PiDaemon) : PiAct → Prop
  | .deliver n => s.inFlight.length = 1 → ∀ r ∈ s.inFlight[n]?, r.1 + 1 = s.issued
  | .start sid => sid.getD "" = "" → s.lastReport = none
  | .shutdown | .front _ => True

instance (tr : List FrontEvent) (s : PiDaemon) (a : PiAct) : Decidable (InOrder tr s a) := by
  unfold InOrder
  split <;> infer_instance

/-! ## Steps -/

section Step

variable {s s' : PiDaemon} {ev : List FrontEvent}

/-- What the extension reports says which session it is in. -/
theorem report_says {r : Option String × Option Json}
    (hr : (∃ sid, r = reportSession sid) ∨ r = reportShutdown) {body : Json}
    (hb : r.2 = some body) :
    sessionHint body = r.1 := by
  rcases hr with ⟨sid, rfl⟩ | rfl
  · unfold reportSession at hb ⊢
    split at hb
    · next sid =>
      split at hb
      · exact absurd hb (by simp)
      · next hne =>
        obtain rfl := Option.some.inj hb
        simp [sessionHint, reportBody, Json.get?, Json.asStr, hne]
    · exact absurd hb (by simp)
  · obtain rfl := Option.some.inj hb
    rfl

/-- A start is reported just if there is an id. -/
theorem reportSession_cases (sid : Option String) :
    (sid.getD "" = "" ∧ reportSession sid = (none, none)) ∨
      ∃ body, reportSession sid = (sid, some body) := by
  cases sid with
  | none => exact .inl ⟨rfl, rfl⟩
  | some sid =>
    by_cases hsid : sid = ""
    · exact .inl ⟨hsid, if_pos hsid⟩
    · exact .inr ⟨reportBody sid, if_neg hsid⟩

/-- **What holds on the way**: reports are numbered, the last one says which session the client is
in, and so does the hint when none is under way. -/
structure PiDaemon.OnTheWay (s : PiDaemon) : Prop where
  numbered : ∀ r ∈ s.inFlight, r.1 < s.issued
  last : ∀ r ∈ s.inFlight, r.1 + 1 = s.issued → sessionHint r.2 = s.lastReport
  current : s.currentSid = s.lastReport
  hint : s.inFlight = [] → s.front.hint = s.lastReport

/-- A report is issued for the session that it speaks of. -/
theorem PiDaemon.OnTheWay.report (h : s.OnTheWay) {r : Option String × Option Json}
    (hr : (∃ sid, r = reportSession sid) ∨ r = reportShutdown) {body : Json}
    (hb : r.2 = some body) :
    (s.report r r.1).OnTheWay := by
  have hsays := report_says hr hb
  obtain ⟨current, report⟩ := r
  obtain rfl : report = some body := hb
  refine ⟨fun r hr => ?_, fun r hr hlast => ?_, rfl, fun hnone => ?_⟩
  · rcases List.mem_append.mp hr with hold | hnew
    · exact Nat.lt_succ_of_lt (h.numbered r hold)
    · obtain rfl := List.mem_singleton.mp hnew
      exact Nat.lt_succ_self _
  · rcases List.mem_append.mp hr with hold | hnew
    · have hlt := h.numbered r hold
      have heq : r.1 + 1 = s.issued + 1 := hlast
      omega
    · obtain rfl := List.mem_singleton.mp hnew
      exact hsays
  · have happ : s.inFlight ++ [(s.issued, body)] = [] := hnone
    exact absurd happ (by simp)

/-- A report arrives. -/
theorem piStep_deliver {n : ℕ} (hs : piStep s (.deliver n) = some (s', ev)) :
    ∃ r, s.inFlight[n]? = some r ∧ s' = { s with
      inFlight := s.inFlight.eraseIdx n, front := { s.front with hint := sessionHint r.2 } } := by
  simp only [piStep] at hs
  split at hs
  · next k body hbody =>
    obtain ⟨r, hr, heq⟩ := Option.map_eq_some_iff.mp hs
    obtain ⟨rfl, -⟩ := Prod.mk.inj heq
    obtain rfl := Option.some.inj hr
    exact ⟨(k, body), hbody, rfl⟩
  · exact absurd hs (by simp)

/-- A report arrives last. -/
theorem length_eq_one_of_deliver {n : ℕ} {r : ℕ × Json} (hr : s.inFlight[n]? = some r)
    (hnone : s.inFlight.eraseIdx n = []) : s.inFlight.length = 1 := by
  obtain ⟨hn, -⟩ := List.getElem?_eq_some_iff.mp hr
  have hlen := congrArg List.length hnone
  rw [List.length_eraseIdx_of_lt hn, List.length_nil] at hlen
  omega

/-- Nothing but a report touches the hint. -/
theorem frontStep_hint {f f' : Front} {a : FrontAct} (hs : frontStep f a = some (f', ev))
    (ha : ∀ body, a ≠ .sessionActive body) : f'.hint = f.hint := by
  have honStore : ∀ {b : Act StoreCall} {g : Front} {e : List FrontEvent},
      f.onStore b = some (g, e) → g.hint = f.hint := by
    intro b g e h
    obtain ⟨r, -, heq⟩ := Option.map_eq_some_iff.mp h
    obtain ⟨rfl, -⟩ := Prod.mk.inj heq
    rfl
  cases a with
  | sessionActive body => exact absurd rfl (ha body)
  | bind header model random now =>
    simp only [frontStep] at hs
    obtain ⟨⟨g, gev⟩, hcall, heq⟩ := Option.map_eq_some_iff.mp hs
    have hg : g.hint = f.hint := honStore hcall
    obtain ⟨rfl, -⟩ := Prod.mk.inj heq
    exact hg
  | lookedUp i found =>
    simp only [frontStep] at hs
    split at hs
    · split at hs
      · exact absurd hs (by simp)
      · split at hs
        · split at hs
          · obtain ⟨rfl, -⟩ := Prod.mk.inj (Option.some.inj hs)
            rfl
          · exact absurd hs (by simp)
        · obtain ⟨rfl, -⟩ := Prod.mk.inj (Option.some.inj hs)
          rfl
    · exact absurd hs (by simp)
  | record i turn now =>
    simp only [frontStep] at hs
    split at hs
    · split at hs
      · split at hs
        · exact absurd hs (by simp)
        · obtain ⟨⟨g, gev⟩, hcall, heq⟩ := Option.map_eq_some_iff.mp hs
          have hg : g.hint = f.hint := honStore hcall
          obtain ⟨rfl, -⟩ := Prod.mk.inj heq
          exact hg
      · exact absurd hs (by simp)
    · exact absurd hs (by simp)
  | sessionTest now =>
    simp only [frontStep] at hs
    exact honStore hs
  | store a =>
    simp only [frontStep] at hs
    split at hs
    · exact absurd hs (by simp)
    · exact honStore hs

/-- The daemon goes on. -/
theorem piStep_front {a : FrontAct} (hs : piStep s (.front a) = some (s', ev)) :
    ∃ f', frontStep s.front a = some (f', ev) ∧ s' = { s with front := f' } ∧
      f'.hint = s.front.hint := by
  simp only [piStep] at hs
  split at hs
  · exact absurd hs (by simp)
  · next hne =>
    obtain ⟨r, hr, heq⟩ := Option.map_eq_some_iff.mp hs
    obtain ⟨rfl, rfl⟩ := Prod.mk.inj heq
    exact ⟨r.1, hr, rfl, frontStep_hint hr hne⟩

/-- **A step that the condition allows keeps the hint on its way.** -/
theorem PiDaemon.OnTheWay.step {a : PiAct} {tr : List FrontEvent} (h : s.OnTheWay)
    (ha : InOrder tr s a) (hs : piStep s a = some (s', ev)) : s'.OnTheWay := by
  cases a with
  | start sid =>
    obtain ⟨rfl, -⟩ := Prod.mk.inj (Option.some.inj hs)
    rcases reportSession_cases sid with ⟨hsid, heq⟩ | ⟨body, heq⟩
    · rw [heq]
      exact ⟨h.numbered, h.last, (ha hsid).symm, h.hint⟩
    · have hreport := h.report (.inl ⟨sid, rfl⟩) (congrArg Prod.snd heq)
      rwa [heq] at hreport ⊢
  | shutdown =>
    obtain ⟨rfl, -⟩ := Prod.mk.inj (Option.some.inj hs)
    exact h.report (.inr rfl) rfl
  | deliver n =>
    -- If no other report is under way, this one was issued last.
    obtain ⟨r, hr, rfl⟩ := piStep_deliver hs
    have hsub := fun r => List.mem_of_mem_eraseIdx (l := s.inFlight) (a := r) (i := n)
    refine ⟨fun r hmem => h.numbered r (hsub r hmem), fun r hmem => h.last r (hsub r hmem),
      h.current, fun hnone => ?_⟩
    exact h.last r (List.mem_of_getElem? hr) (ha (length_eq_one_of_deliver hr hnone) r hr)
  | front a =>
    obtain ⟨f', -, rfl, hhint⟩ := piStep_front hs
    exact ⟨h.numbered, h.last, h.current, fun hnone => hhint.trans (h.hint hnone)⟩

/-- A report of another session that arrives last leaves the wrong hint behind. -/
theorem not_converged_of_stale {n : ℕ} {r : ℕ × Json} (hone : s.inFlight.length = 1)
    (hr : s.inFlight[n]? = some r) (hstale : sessionHint r.2 ≠ s.lastReport)
    (hs : piStep s (.deliver n) = some (s', ev)) : ¬ s'.Converged := by
  obtain ⟨r', hr', rfl⟩ := piStep_deliver hs
  obtain rfl := Option.some.inj (hr.symm.trans hr')
  obtain ⟨hn, -⟩ := List.getElem?_eq_some_iff.mp hr
  intro hconv
  refine hstale (hconv.reported (List.length_eq_zero_iff.mp ?_))
  show (s.inFlight.eraseIdx n).length = 0
  rw [List.length_eraseIdx_of_lt hn, hone]

end Step

/-! ## Results -/

/-- Before the client has started. -/
def PiDaemon.fresh : PiDaemon := ⟨none, [], 0, none, ⟨none, ⟨Tables.empty, []⟩, [], []⟩⟩

end LlmCtl
