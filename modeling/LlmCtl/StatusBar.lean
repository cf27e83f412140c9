/-
# The status bar of pi (`llama-stats.ts`)

The extension asks the daemon for its status every two seconds and shows two figures of its
client's session: the hit rate of the cache, and how full the context of the worker is.

The hit rate is that of the panel: both take it from the session's report in the same reply, and
both round it in the same way.
-/
import LlmCtl.JsShape
import LlmCtl.PanelSafe
import LlmCtl.PiSession
import LlmCtl.SessionsView

namespace LlmCtl

open EventSystem ReadCommitted

/-! ## The text -/

/-- The numbers of the extension: those of the panel, and the arithmetic of `pct`. -/
structure BarHost extends Js.Host where
  /-- `d <= 0`. -/
  atMostZero : Js → Except Thrown Bool
  /-- `((n / d) * 100).toFixed(1)`. -/
  percent : Js → Js → Except Thrown String

section Text

variable (host : BarHost)

/-- `pct`. -/
def pct (n d : Js) : Except Thrown String := do
  if !d.truthy then return "--"
  if ← host.atMostZero d then return "--"
  return (← host.percent n d) ++ "%"

/-- `currentSid` as a value of the script. -/
def sidValue (currentSid : Option String) : Js := (currentSid.map Js.text).getD (.json .null)

/-- `sessions.find((x) => x.id === currentSid)`. -/
def findSession (currentSid : Option String) : List Json → Except Thrown Js
  | [] => .ok .undefined
  | x :: xs => do
    let id ← (Js.json x).get "id"
    if id.strictEq (sidValue currentSid) then return .json x else findSession currentSid xs

/-- `cachePct`. -/
def cachePct (sessions : Js) (currentSid : Option String) : Except Thrown String := do
  let s ← findSession currentSid (← (sessions.orElse (.json (.arr []))).items)
  if s.truthy then
    let rate ← s.get "cache_hit_pct"
    if rate.isNumber then return (← rate.toFixed host.toHost) ++ "%"
    return "--"
  return "--"

/-- `lastTurn && currentSid && lastTurn.session_id === currentSid`. -/
def isLastTurn (lastTurn : Js) (currentSid : Option String) : Except Thrown Bool := do
  if lastTurn.truthy && (sidValue currentSid).truthy then
    return (← lastTurn.get "session_id").strictEq (sidValue currentSid)
  return false

/-- `ctxPct`. -/
def ctxPct (slots lastTurn : Js) (currentSid : Option String) : Except Thrown String := do
  if ← isLastTurn lastTurn currentSid then
    let s ← (slots.orElse (.json (.arr []))).first
    if s.truthy then
      let tokens ← s.get "n_prompt_tokens"
      let context ← s.get "n_ctx"
      return ← pct host (tokens.nullish (.json (.int 0))) (context.nullish (.json (.int 0)))
    return "--"
  return "--"

/-- What the two figures make. -/
def barTextOf (cache ctx : String) : String := String.join ["cache ", cache, " · ctx ", ctx]

/-- `buildText`. -/
def buildText (data : Js) (currentSid : Option String) : Except Thrown String := do
  let worker := (← data.getIfThere "worker").orElse (.json (.obj []))
  let cache ← cachePct host (← data.getIfThere "sessions") currentSid
  let ctx ← ctxPct host (← worker.get "slots") (← worker.get "last_turn") currentSid
  return barTextOf cache ctx

/-- What is shown without figures. -/
def idleText : String := barTextOf "--" "--"

/-- `poll`: whatever fails, the reply or its reading, leaves no figures. -/
def polled (reply : Option Json) (currentSid : Option String) : String :=
  match reply with
  | none => idleText
  | some data =>
    match buildText host (.json data) currentSid with
    | .ok text => text
    | .error _ => idleText

end Text

/-! ## The rate in the panel -/

section Rate

variable {host : BarHost}

/-- The rate that the panel shows: none is shown as zero. -/
theorem toFixed_orElse_zero (hzero : host.number (.json (.float 0)) = host.number (.json (.int 0)))
    (rate : ℚ) :
    ((Js.json (.float rate)).orElse (.json (.int 0))).toFixed host.toHost =
      .ok (host.toFixed (host.number (.json (.float rate)))) := by
  rw [Js.orElse]
  split
  · rfl
  · next hfalse =>
    have hrate : rate = 0 := by simpa [Js.truthy] using hfalse
    rw [hrate, hzero]
    rfl

/-- A text that may be missing can be shown. -/
theorem esc_orElse (model : Option String) :
    ∃ t, Panel.esc host.toHost
      ((Js.json ((model.map Json.str).getD .null)).orElse (Js.text "")) = .ok t := by
  rw [Js.orElse]
  cases model with
  | none => exact ⟨_, rfl⟩
  | some m =>
    split
    · exact ⟨_, rfl⟩
    · exact ⟨_, rfl⟩

/-- The panel's row of a session shows the rate as this text. -/
def ShowsRate (host : Js.Host) (v : Json) (pct : String) : Prop :=
  ∃ id model requests prompt completion cls, Panel.sessionRow host v =
    .ok (Panel.sessionHtml id model requests prompt completion cls pct)

/-- The fields of the report of a session that the script reads. -/
theorem get_sessionReport {checks : Bool} {row : SessionRow} {v : Json}
    (h : sessionReport checks row = some v) :
    (Js.json v).get "id" = .ok (Js.text row.id) ∧
      ∃ rate, (Js.json v).get "cache_hit_pct" = .ok (.json (.float rate)) := by
  obtain ⟨rate, -, rfl⟩ := Option.map_eq_some_iff.mp h
  exact ⟨rfl, rate, rfl⟩

/-- The row of a report shows its rate. -/
theorem showsRate_sessionReport {checks : Bool} {row : SessionRow} {v : Json} {rate : ℚ}
    (h : sessionReport checks row = some v)
    (hzero : host.number (.json (.float 0)) = host.number (.json (.int 0)))
    (hrate : (Js.json v).get "cache_hit_pct" = .ok (.json (.float rate))) :
    ShowsRate host.toHost v (host.toFixed (host.number (.json (.float rate)))) := by
  obtain ⟨rate', -, rfl⟩ := Option.map_eq_some_iff.mp h
  obtain rfl : rate' = rate := by
    have heq : Except.ok (Js.json (.float rate')) = Except.ok (Js.json (.float rate)) := hrate
    simpa using heq
  obtain ⟨shown, hshown⟩ := @esc_orElse host row.model
  exact ⟨_, shown, _, _, _, _, (Js.bind_ok hrate _).trans <| (Js.bind_ok rfl _).trans <|
    (Js.bind_ok rfl _).trans <| (Js.bind_ok rfl _).trans <| (Js.bind_ok hshown _).trans <|
    (Js.bind_ok rfl _).trans <| (Js.bind_ok rfl _).trans <| (Js.bind_ok rfl _).trans <|
    (Js.bind_ok (toFixed_orElse_zero hzero rate') _).trans rfl⟩

/-! ## The rate in the status bar -/

theorem strictEq_sidValue (id sid : String) :
    (Js.text id).strictEq (sidValue (some sid)) = true ↔ id = sid := by
  show (id == sid) = true ↔ id = sid
  exact beq_iff_eq

/-- The session that is found is the first one with its id. -/
theorem findSession_cases {vs : List Json}
    (hvs : ∀ v ∈ vs, ∃ id, (Js.json v).get "id" = .ok (Js.text id)) (sid : String) :
    (∃ v ∈ vs, (Js.json v).get "id" = .ok (Js.text sid) ∧
      findSession (some sid) vs = .ok (.json v)) ∨
    (∀ v ∈ vs, (Js.json v).get "id" ≠ .ok (Js.text sid)) ∧
      findSession (some sid) vs = .ok .undefined := by
  induction vs with
  | nil => exact .inr ⟨fun v hv => absurd hv List.not_mem_nil, rfl⟩
  | cons v vs ih =>
    obtain ⟨id, hid⟩ := hvs v List.mem_cons_self
    have hstep : findSession (some sid) (v :: vs) =
        if (Js.text id).strictEq (sidValue (some sid)) then .ok (.json v)
        else findSession (some sid) vs := (Js.bind_ok hid _).trans rfl
    by_cases hsid : id = sid
    · rw [if_pos ((strictEq_sidValue id sid).mpr hsid)] at hstep
      exact .inl ⟨v, List.mem_cons_self, hsid ▸ hid, hstep⟩
    · rw [if_neg fun h => hsid ((strictEq_sidValue id sid).mp h)] at hstep
      rw [hstep]
      rcases ih fun w hw => hvs w (List.mem_cons_of_mem v hw) with ⟨w, hw, hfound⟩ | ⟨hnone, hend⟩
      · exact .inl ⟨w, List.mem_cons_of_mem v hw, hfound⟩
      · refine .inr ⟨List.forall_mem_cons.mpr ⟨fun heq => hsid ?_, hnone⟩, hend⟩
        simpa [Js.text] using hid.symm.trans heq

/-- Two reports of one session are the same. -/
theorem report_unique {checks : Bool} {limit : ℕ} {d : Tables} (hd : d.Consistent)
    {vs : List Json} (hvs : listSessions checks limit d = some vs) {sid : String} {v w : Json}
    (hv : v ∈ vs) (hw : w ∈ vs) (hvid : (Js.json v).get "id" = .ok (Js.text sid))
    (hwid : (Js.json w).get "id" = .ok (Js.text sid)) : v = w := by
  have hrow : ∀ x ∈ vs, (Js.json x).get "id" = .ok (Js.text sid) →
      ∃ row ∈ d.sessions, row.id = sid ∧ sessionReport checks row = some x := by
    intro x hx hxid
    obtain ⟨row, hmem, hreport⟩ := sessionReport_of_mem_list hvs hx
    refine ⟨row, hmem, ?_, hreport⟩
    simpa [Js.text] using (get_sessionReport hreport).1.symm.trans hxid
  obtain ⟨row, hmem, hid, hreport⟩ := hrow v hv hvid
  obtain ⟨row', hmem', hid', hreport'⟩ := hrow w hw hwid
  obtain rfl := List.inj_on_of_nodup_map hd.nodup hmem hmem' (hid.trans hid'.symm)
  exact Option.some.inj (hreport.symm.trans hreport')

/-- What is found makes the figure. -/
theorem cachePct_of_found {vs : List Json} {sid : String} {v : Json} {rate : ℚ}
    (hfound : findSession (some sid) vs = .ok (.json v))
    (hrate : (Js.json v).get "cache_hit_pct" = .ok (.json (.float rate))) :
    cachePct host (.json (.arr vs)) (some sid) =
      .ok (host.toFixed (host.number (.json (.float rate))) ++ "%") := by
  have htruthy : (Js.json v).truthy = true := by
    cases v with
    | obj fields => rfl
    | _ => exact absurd hrate (by simp [Js.get, Json.get?])
  refine (Js.bind_ok (a := vs) rfl _).trans ((Js.bind_ok hfound _).trans ?_)
  rw [if_pos htruthy]
  exact (Js.bind_ok hrate _).trans rfl

theorem cachePct_of_not_found {vs : List Json} {sid : String}
    (hnone : findSession (some sid) vs = .ok .undefined) :
    cachePct host (.json (.arr vs)) (some sid) = .ok "--" :=
  (Js.bind_ok (a := vs) rfl _).trans ((Js.bind_ok hnone _).trans rfl)

/-- The two figures of a text that has been built. -/
theorem of_buildText {data : Json} {sid : Option String} {text : String}
    (h : buildText host (.json data) sid = .ok text) {vs : List Json}
    (hdata : data.get? "sessions" = some (.arr vs)) :
    ∃ cache ctx, cachePct host (.json (.arr vs)) sid = .ok cache ∧ text = barTextOf cache ctx := by
  obtain ⟨worker, -, hrest⟩ := Js.of_bind_ok h
  obtain ⟨sessions, hsessions, hrest⟩ := Js.of_bind_ok hrest
  obtain ⟨cache, hcache, hrest⟩ := Js.of_bind_ok hrest
  obtain ⟨slots, -, hrest⟩ := Js.of_bind_ok hrest
  obtain ⟨lastTurn, -, hrest⟩ := Js.of_bind_ok hrest
  obtain ⟨ctx, -, htext⟩ := Js.of_bind_ok hrest
  have hget : (Js.json data).getIfThere "sessions" = .ok (.json (.arr vs)) := by
    cases data with
    | obj fields => exact congrArg (fun v => Except.ok ((v.map Js.json).getD .undefined)) hdata
    | _ => exact absurd hdata (by simp [Json.get?])
  obtain rfl := Except.ok.inj (hsessions.symm.trans hget)
  exact ⟨cache, ctx, hcache, (Except.ok.inj htext).symm⟩

end Rate

/-- **The status bar agrees with the panel**: when both read the sessions of one state of the
store, the figure of the bar is the rate in the panel's row of the session, and there is none if
the panel has no row for it. -/
theorem bar_agrees_with_panel {host : BarHost}
    (hzero : host.number (.json (.float 0)) = host.number (.json (.int 0)))
    {lockKey : String → ℤ} {tr : List (ReadCommitted.Event StoreError)} {s : StoreState}
    (h : (storeSystem lockKey).Run Anything tr s) {checks : Bool} {limit : ℕ} {vs : List Json}
    (hvs : listSessions checks limit s.committed = some vs) {data : Json}
    (hdata : data.get? "sessions" = some (.arr vs)) {sid text : String}
    (hbuilt : buildText host (.json data) (some sid) = .ok text) :
    ∃ cache ctx, text = barTextOf cache ctx ∧
      (∀ v ∈ vs, (Js.json v).get "id" = .ok (Js.text sid) →
        ∃ pct, cache = pct ++ "%" ∧ ShowsRate host.toHost v pct) ∧
      ((∀ v ∈ vs, (Js.json v).get "id" ≠ .ok (Js.text sid)) → cache = "--") := by
  obtain ⟨cache, ctx, hcache, rfl⟩ := of_buildText hbuilt hdata
  have hids : ∀ v ∈ vs, ∃ id, (Js.json v).get "id" = .ok (Js.text id) := by
    intro v hv
    obtain ⟨row, -, hreport⟩ := sessionReport_of_mem_list hvs hv
    exact ⟨row.id, (get_sessionReport hreport).1⟩
  refine ⟨cache, ctx, rfl, ?_⟩
  rcases findSession_cases hids sid with ⟨w, hw, hwid, hfound⟩ | ⟨hnone, hend⟩
  · refine ⟨fun v hv hvid => ?_, fun hno => absurd hwid (hno w hw)⟩
    obtain rfl := report_unique (consistent_of_run h) hvs hv hw hvid hwid
    obtain ⟨row, -, hreport⟩ := sessionReport_of_mem_list hvs hv
    obtain ⟨rate, hrate⟩ := (get_sessionReport hreport).2
    exact ⟨_, Except.ok.inj (hcache.symm.trans (cachePct_of_found hfound hrate)),
      showsRate_sessionReport hreport hzero hrate⟩
  · refine ⟨fun v hv hvid => absurd hvid (hnone v hv), fun _ => ?_⟩
    exact Except.ok.inj (hcache.symm.trans (cachePct_of_not_found hend))

/-- The extension's numbers, as far as whole numbers go. -/
def londonBar : BarHost where
  toHost := Panel.londonHost
  atMostZero d := .ok ((Panel.londonHost.number d).any fun q : ℚ => decide (q ≤ 0))
  percent n d := .ok (Panel.londonHost.toFixed do
    return (← (Panel.londonHost.number n : Option ℚ)) / (← Panel.londonHost.number d) * 100)

/-- The text of a reply that says nothing about the worker. -/
theorem buildText_sessions {host : BarHost} {vs : List Json} {sid : Option String} {cache : String}
    (h : cachePct host (.json (.arr vs)) sid = .ok cache) :
    buildText host (.json (.obj [("sessions", .arr vs)])) sid = .ok (barTextOf cache "--") := by
  have hctx : ctxPct host .undefined .undefined sid = .ok "--" := rfl
  exact (Js.bind_ok rfl _).trans <| (Js.bind_ok rfl _).trans <| (Js.bind_ok h _).trans <|
    (Js.bind_ok rfl _).trans <| (Js.bind_ok rfl _).trans <| (Js.bind_ok hctx _).trans rfl

/-- Two turns of a session are recorded, and the session is in the panel and in the bar. -/
theorem bar_agrees_with_panel_two :
    ∃ tr s vs, (storeSystem sessionLockKey).Run Anything tr s ∧
      listSessions false 20 s.committed = some vs ∧
      ∃ v ∈ vs, ∃ pct ctx, ShowsRate Panel.londonHost v pct ∧
        buildText londonBar (.json (.obj [("sessions", .arr vs)])) (some "s") =
          .ok (barTextOf (pct ++ "%") ctx) := by
  obtain ⟨tr, s, h, hp⟩ := Run.reaches (storeSystem sessionLockKey) Anything twoRecorders
    (fun _ s => decide (s.committed.sessions.length = 1) &&
      s.committed.sessions.all fun row => row.id == "s") rfl (admits_anything _ _ _)
    (by decide)
  obtain ⟨hone, hids⟩ := Bool.and_eq_true_iff.mp hp
  obtain ⟨vs, hvs⟩ := exists_listSessions 20 s.committed
  have hlen : vs.length = 1 := by
    rw [length_listSessions hvs, of_decide_eq_true hone]
    rfl
  obtain ⟨v, rfl⟩ := List.length_eq_one_iff.mp hlen
  obtain ⟨row, hrow, hreport⟩ := sessionReport_of_mem_list hvs List.mem_cons_self
  have hid : row.id = "s" := by simpa using List.all_eq_true.mp hids row hrow
  obtain ⟨hvid, rate, hrate⟩ := get_sessionReport hreport
  rw [hid] at hvid
  have hfound : findSession (some "s") [v] = .ok (.json v) := (Js.bind_ok hvid _).trans rfl
  have hcache : cachePct londonBar (.json (.arr [v])) (some "s") = .ok _ :=
    cachePct_of_found hfound hrate
  have hbuilt := buildText_sessions hcache
  obtain ⟨cache, ctx, htext, hlisted, -⟩ := bar_agrees_with_panel rfl h hvs rfl hbuilt
  obtain ⟨pct, rfl, hshows⟩ := hlisted v List.mem_cons_self hvid
  refine ⟨tr, s, [v], h, hvs, v, List.mem_cons_self, pct, ctx, hshows, ?_⟩
  rw [hbuilt, htext]

end LlmCtl
