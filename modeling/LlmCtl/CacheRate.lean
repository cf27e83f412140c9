/-
# The reported cache hit rate (`store.rs`)

The rate of a session is documented as the cached share of the prompt tokens, where the
prompt is `cache_n + prompt_n`.  The rollup of the prompt tokens already counts the cached
ones, and `cache_hit_pct` adds them once more.

The hit rate is a double in the code and a rational number here.
-/
import LlmCtl.Rollups
import Mathlib.Algebra.Order.Field.Rat
import Mathlib.Tactic.FieldSimp
import Mathlib.Tactic.Linarith
import Mathlib.Tactic.Positivity

namespace LlmCtl

open EventSystem ReadCommitted

/-! ## The report -/

/-- `cache_hit_pct`.  Nothing when the sum panics. -/
def cacheHitPct (overflowChecks : Bool) (cache prompt : ℤ) : Option ℚ :=
  (addI64 overflowChecks cache prompt).map fun total : ℤ =>
    if total > 0 then (cache : ℚ) / total * 100 else 0

/-- What `list_sessions` says about a session. -/
def sessionReport (overflowChecks : Bool) (s : SessionRow) : Option Json :=
  (cacheHitPct overflowChecks s.totalCacheTokens s.totalPromptTokens).map fun pct =>
    .obj [("id", .str s.id), ("model", (s.model.map Json.str).getD .null),
      ("requests", .int s.totalRequests), ("prompt_tokens", .int s.totalPromptTokens),
      ("completion_tokens", .int s.totalCompletionTokens),
      ("cache_tokens", .int s.totalCacheTokens), ("cache_hit_pct", .float pct),
      ("prompt_ms", .float s.totalPromptMs), ("completion_ms", .float s.totalCompletionMs)]

/-- `list_sessions`: the sessions that were updated last. -/
def listSessions (overflowChecks : Bool) (limit : ℕ) (d : Tables) : Option (List Json) :=
  ((d.sessions.mergeSort fun a b => decide (b.updatedAt ≤ a.updatedAt)).take limit).mapM
    (sessionReport overflowChecks)

/-- The hit rate in the report of a session. -/
def reportedRate (overflowChecks : Bool) (s : SessionRow) : Option ℚ :=
  ((sessionReport overflowChecks s).bind fun v => v.get? "cache_hit_pct").bind Json.asF64

theorem reportedRate_eq (checks : Bool) (s : SessionRow) :
    reportedRate checks s = cacheHitPct checks s.totalCacheTokens s.totalPromptTokens := by
  unfold reportedRate sessionReport
  cases cacheHitPct checks s.totalCacheTokens s.totalPromptTokens <;> rfl

/-- Every session that is listed is reported by its row. -/
theorem sessionReport_of_mem_list {checks : Bool} {limit : ℕ} {d : Tables} {vs : List Json}
    (h : listSessions checks limit d = some vs) {v : Json} (hv : v ∈ vs) :
    ∃ s ∈ d.sessions, sessionReport checks s = some v := by
  obtain ⟨s, hs, hsv⟩ := ListTable.exists_of_mem_mapM h hv
  exact ⟨s, List.mem_mergeSort.mp (List.mem_of_mem_take hs), hsv⟩

/-! ## The documented rate -/

/-- The prompt tokens of the turns that came from the cache. -/
def cachedSum (rows : List StoredTurn) : ℤ := (rows.map fun r => r.turn.cacheN).sum

/-- The prompt tokens of the turns that did not. -/
def promptSum (rows : List StoredTurn) : ℤ := (rows.map fun r => r.turn.promptN).sum

/-- The documented hit rate: the cached tokens of the turns among all their prompt tokens. -/
def documentedRate (rows : List StoredTurn) : ℚ :=
  if cachedSum rows + promptSum rows = 0 then 0
  else 100 * (cachedSum rows : ℚ) / (cachedSum rows + promptSum rows : ℤ)

/-- `usage` and `timings` describe the same tokens, or there is no `usage`. -/
structure SameTokens (cap : Capture) : Prop where
  cache_nonneg : 0 ≤ numI cap.timings "cache_n"
  prompt_nonneg : 0 ≤ numI cap.timings "prompt_n"
  usage : cap.usage = none ∨ cap.usage = some .null ∨
    numI cap.usage "prompt_tokens"
        = numI cap.timings "prompt_n" + numI cap.timings "cache_n" ∧
      cachedTokens cap.usage = numI cap.timings "cache_n"

/-- The turn was built from an answer whose `usage` and `timings` describe the same tokens. -/
def CapturedTurn (overflowChecks : Bool) (t : TurnRow) : Prop :=
  ∃ asked cap ms, SameTokens cap ∧ TurnRow.buildTurn overflowChecks asked cap ms = some t

/-! ## The meaning of the rollups -/

/-- **The tokens of a captured turn.**  The rollup of the cache counts `cache_n`; the rollup
of the prompt counts the cached tokens too, up to a wrapped sum. -/
theorem CapturedTurn.tokens {checks : Bool} {t : TurnRow} (h : CapturedTurn checks t) :
    0 ≤ t.cacheN ∧ 0 ≤ t.promptN ∧ t.usageCachedTokens = t.cacheN ∧
      (∃ k, t.usagePromptTokens = t.promptN + t.cacheN - 2 ^ 64 * k) ∧
      (t.cacheN = 0 → t.usagePromptTokens = t.promptN) := by
  obtain ⟨asked, cap, ms, hsame, hbuild⟩ := h
  obtain ⟨n, hn, rfl⟩ := Option.map_eq_some_iff.mp hbuild
  have husage : (numI cap.usage "prompt_tokens" = 0 ∧ cachedTokens cap.usage = 0) ∨
      (numI cap.usage "prompt_tokens"
          = numI cap.timings "prompt_n" + numI cap.timings "cache_n" ∧
        cachedTokens cap.usage = numI cap.timings "cache_n") := by
    rcases hsame.usage with hu | hu | hu
    · exact .inl (by rw [hu]; exact ⟨rfl, rfl⟩)
    · exact .inl (by rw [hu]; exact ⟨rfl, rfl⟩)
    · exact .inr hu
  have hcache := hsame.cache_nonneg
  have hprompt := hsame.prompt_nonneg
  unfold TurnRow.promptTokens at hn
  refine ⟨hcache, hprompt, ?_, ?_, ?_⟩
  · show TurnRow.usedCache cap.usage cap.timings = numI cap.timings "cache_n"
    unfold TurnRow.usedCache
    split
    · omega
    · rfl
  · show ∃ k, n = numI cap.timings "prompt_n" + numI cap.timings "cache_n" - 2 ^ 64 * k
    split at hn
    · obtain rfl := Option.some.inj hn
      exact ⟨0, by omega⟩
    · exact addI64_mod hn
  · intro hzero
    replace hzero : numI cap.timings "cache_n" = 0 := hzero
    show n = numI cap.timings "prompt_n"
    split at hn
    · obtain rfl := Option.some.inj hn
      omega
    · rw [hzero, addI64_of_inI64 (by rw [add_zero]; exact inI64_numI _ _), add_zero] at hn
      exact (Option.some.inj hn).symm

/-- The totals of a session whose turns are all captured. -/
structure CapturedTotals (rows : List StoredTurn) : Prop where
  cache_nonneg : 0 ≤ cachedSum rows
  prompt_nonneg : 0 ≤ promptSum rows
  cache : (rows.map fun r => r.turn.usageCachedTokens).sum = cachedSum rows
  prompt : ∃ k, (rows.map fun r => r.turn.usagePromptTokens).sum
    = promptSum rows + cachedSum rows - 2 ^ 64 * k
  uncached : cachedSum rows = 0 →
    (rows.map fun r => r.turn.usagePromptTokens).sum = promptSum rows

/-- The turns add up. -/
theorem capturedTotals {checks : Bool} {rows : List StoredTurn}
    (h : ∀ r ∈ rows, CapturedTurn checks r.turn) : CapturedTotals rows := by
  induction rows with
  | nil => exact ⟨le_rfl, le_rfl, rfl, ⟨0, rfl⟩, fun _ => rfl⟩
  | cons r rows ih =>
    have ht := ih fun x hx => h x (List.mem_cons_of_mem _ hx)
    obtain ⟨hc, hp, hcache, ⟨k, hk⟩, huncached⟩ := (h r List.mem_cons_self).tokens
    obtain ⟨m, hm⟩ := ht.prompt
    have hcs := ht.cache_nonneg
    have hps := ht.prompt_nonneg
    have hcons : cachedSum (r :: rows) = r.turn.cacheN + cachedSum rows := rfl
    have hpons : promptSum (r :: rows) = r.turn.promptN + promptSum rows := rfl
    refine ⟨by omega, by omega, ?_, ⟨k + m, ?_⟩, fun hzero => ?_⟩
    · rw [List.map_cons, List.sum_cons, hcache, ht.cache, hcons]
    · rw [List.map_cons, List.sum_cons, hk, hm, hcons, hpons]
      omega
    · rw [List.map_cons, List.sum_cons, huncached (by omega), ht.uncached (by omega), hpons]

/-! ## Where the reported rate is the documented one -/

/-- Two positive shares of one number are equal only when they are shares of the same total. -/
theorem total_eq_of_share_eq {c n m : ℤ} (hc : 0 < c) (hn : 0 < n) (hm : 0 < m)
    (h : (c : ℚ) / n * 100 = 100 * c / m) : n = m := by
  have hc' : (0 : ℚ) < c := by exact_mod_cast hc
  have hn' : (0 : ℚ) < n := by exact_mod_cast hn
  have hm' : (0 : ℚ) < m := by exact_mod_cast hm
  field_simp at h
  exact_mod_cast h.symm

/-- The rate of `cache_hit_pct` on the totals of captured turns. -/
theorem cacheHitPct_eq_iff {checks : Bool} {rows : List StoredTurn} {total : ℤ}
    (h : CapturedTotals rows) (hcached : cachedSum rows < 2 ^ 63) (htotal : inI64 total = true)
    (hsum : (rows.map fun r => r.turn.usagePromptTokens).sum = total) :
    cacheHitPct checks (cachedSum rows) total = some (documentedRate rows) ↔
      cachedSum rows = 0 := by
  have hc := h.cache_nonneg
  have hp := h.prompt_nonneg
  constructor
  · intro heq
    obtain ⟨n, hn, hrate⟩ := Option.map_eq_some_iff.mp heq
    by_contra hne
    have hpos : 0 < cachedSum rows := by omega
    obtain ⟨k, hk⟩ := h.prompt
    obtain ⟨j, hj⟩ := addI64_mod hn
    have hdoc : documentedRate rows
        = 100 * (cachedSum rows : ℚ) / (cachedSum rows + promptSum rows : ℤ) :=
      if_neg (by omega)
    rw [hdoc] at hrate
    split at hrate
    · next hnpos =>
      have htotals := total_eq_of_share_eq hpos hnpos (by omega) hrate
      omega
    · have hpos' : (0 : ℚ) < cachedSum rows := by exact_mod_cast hpos
      have htotal' : (0 : ℚ) < (cachedSum rows + promptSum rows : ℤ) := by
        exact_mod_cast (by omega : 0 < cachedSum rows + promptSum rows)
      have hdocpos : 0 < 100 * (cachedSum rows : ℚ) / (cachedSum rows + promptSum rows : ℤ) := by
        positivity
      rw [← hrate] at hdocpos
      exact absurd hdocpos (lt_irrefl 0)
  · intro hzero
    have hprompt : total = promptSum rows := hsum.symm.trans (h.uncached hzero)
    have hdoc : documentedRate rows = 0 := by
      unfold documentedRate
      split
      · rfl
      · rw [hzero]
        simp
    rw [cacheHitPct, hzero, addI64_of_inI64 (by rw [zero_add]; exact htotal), hdoc]
    simp

/-- **The reported cache hit rate is the documented one exactly when nothing was cached.** -/
theorem cache_rate_iff {checks : Bool} {tr : List (Event StoreError)} {s : StoreState}
    (h : (storeSystem sessionLockKey).Run Anything tr s) {row : SessionRow}
    (hrow : row ∈ s.committed.sessions)
    (hturns : ∀ r ∈ s.committed.turnsOf row.id, CapturedTurn checks r.turn) :
    reportedRate checks row = some (documentedRate (s.committed.turnsOf row.id)) ↔
      cachedSum (s.committed.turnsOf row.id) = 0 := by
  have hagrees := (consistent_of_run h).agrees row hrow
  have hcaptured := capturedTotals hturns
  have hfits := hagrees.fits
  simp only [SessionRow.fits, inI64, Bool.and_eq_true, decide_eq_true_eq] at hfits
  have hcache : row.totalCacheTokens = cachedSum (s.committed.turnsOf row.id) :=
    hagrees.cache.trans hcaptured.cache
  rw [reportedRate_eq, hcache]
  refine cacheHitPct_eq_iff hcaptured ?_ ?_ hagrees.prompt.symm
  · omega
  · exact decide_eq_true hfits.1.1.2

/-- An answer to a prompt of ten tokens, some of them cached. -/
def sampleCapture (cached : ℤ) : Capture where
  id := none
  content := some "hi"
  finish := some "stop"
  usage := none
  timings := some (.obj [("cache_n", .int cached), ("prompt_n", .int (10 - cached))])

/-- The turn of such an answer. -/
def sampleTurn (cached : ℤ) : TurnRow :=
  { TurnRow.fake "s" "a" with
    responseContent := some "hi"
    responseFinishReason := some "stop"
    cacheN := cached
    promptN := 10 - cached
    promptPerSecond := 0
    predictedN := 0
    predictedPerSecond := 0
    usagePromptTokens := 10
    usageCachedTokens := cached
    durationMs := 1 }

theorem capturedTurn_sample :
    CapturedTurn true (sampleTurn 0) ∧ CapturedTurn true (sampleTurn 10) :=
  ⟨⟨⟨"s", "a", none, none, none⟩, sampleCapture 0, 1,
      ⟨by decide, by decide, .inl rfl⟩, rfl⟩,
    ⟨⟨"s", "a", none, none, none⟩, sampleCapture 10, 1,
      ⟨by decide, by decide, .inl rfl⟩, rfl⟩⟩

/-- The turn is recorded in a new session. -/
def recordSample (cached : ℤ) : List (Act StoreCall) :=
  .begin (.recordTurn (sampleTurn cached) 1) ::
    ((List.replicate 5 [.start 0, .finish 0]).flatten ++ [.commit 0])

/-- Every call records a captured turn. -/
def RecordsCaptured (_ : List (Event StoreError)) (_ : StoreState) (a : Act StoreCall) : Prop :=
  ∀ r, a = .begin r → ∀ t, r.turn? = some t → CapturedTurn true t

/-- The session that the sample turn is recorded in, and what is reported of it. -/
theorem recorded_sample {cached : ℤ} (hcap : CapturedTurn true (sampleTurn cached))
    {p : SessionRow → List StoredTurn → Bool}
    (hp : (((storeSystem sessionLockKey).exec ⟨Tables.empty, []⟩ (recordSample cached)).any
      fun r => r.1.committed.sessions.any fun row =>
        p row (r.1.committed.turnsOf row.id)) = true) :
    ∃ tr s row, (storeSystem sessionLockKey).Run Anything tr s ∧ row ∈ s.committed.sessions ∧
      (∀ r ∈ s.committed.turnsOf row.id, CapturedTurn true r.turn) ∧
      p row (s.committed.turnsOf row.id) = true := by
  have hadmits : (storeSystem sessionLockKey).Admits RecordsCaptured [] ⟨Tables.empty, []⟩
      (recordSample cached) := by
    refine admits_of_forall (fun a ha _ _ r hr t ht => ?_) _ _
    subst hr
    simp only [recordSample, List.mem_cons, List.mem_append, List.mem_flatten,
      List.mem_replicate] at ha
    rcases ha with ha | ⟨l, ⟨-, rfl⟩, hl⟩ | ha
    · obtain rfl := Act.begin.inj ha
      obtain rfl := Option.some.inj ht
      exact hcap
    · exact absurd hl (by simp)
    · exact absurd ha (by simp)
  obtain ⟨tr, s, h, hs⟩ := Run.reaches (storeSystem sessionLockKey) RecordsCaptured
    (recordSample cached)
    (fun _ s => s.committed.sessions.any fun row => p row (s.committed.turnsOf row.id)) rfl
    hadmits hp
  obtain ⟨row, hrow, hpr⟩ := List.any_eq_true.mp hs
  have hallowed := allowed_of_run sessionLockKey (P := CapturedTurn true) (Q := fun _ => True)
    (fun _ _ r ho => ⟨trivial, ho r rfl⟩) h
  refine ⟨tr, s, row, h.mono fun _ _ _ _ => trivial, hrow, fun r hr => ?_, hpr⟩
  exact hallowed.turns r (Tables.mem_turnsOf.mp hr).1

theorem cache_rate_iff_uncached :
    ∃ tr s row, (storeSystem sessionLockKey).Run Anything tr s ∧ row ∈ s.committed.sessions ∧
      reportedRate true row = some (documentedRate (s.committed.turnsOf row.id)) := by
  obtain ⟨tr, s, row, h, hrow, hturns, hp⟩ := recorded_sample capturedTurn_sample.1
    (p := fun _ rows => decide (cachedSum rows = 0)) (by decide)
  exact ⟨tr, s, row, h, hrow, (cache_rate_iff h hrow hturns).mpr (by simpa using hp)⟩

/-- **A session whose prompt was all served from the cache reports one half.** -/
theorem cached_session_reports_half :
    ¬ ∀ checks tr s row, (storeSystem sessionLockKey).Run Anything tr s →
      row ∈ s.committed.sessions →
      (∀ r ∈ s.committed.turnsOf row.id, CapturedTurn checks r.turn) →
      reportedRate checks row = some (documentedRate (s.committed.turnsOf row.id)) := by
  intro hall
  obtain ⟨tr, s, row, h, hrow, hturns, hp⟩ := recorded_sample capturedTurn_sample.2
    (p := fun row rows => decide (reportedRate true row = some 50 ∧ documentedRate rows = 100))
    (by decide +kernel)
  obtain ⟨hhalf, hfull⟩ := of_decide_eq_true hp
  have heq := hall true tr s row h hrow hturns
  rw [hhalf, hfull] at heq
  exact absurd (Option.some.inj heq) (by norm_num)

end LlmCtl
