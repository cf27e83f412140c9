/-
# The whole turn (`store.rs`, `proxy.rs`)

`Completion` carries as much of a turn as the daemon itself looks at.  The store keeps
more: `TurnRow` is the record of `store.rs` with every field, and `TurnRow.buildTurn` is
`build_turn` on everything that the two capture paths hand to it.

Doubles are rational numbers; 64-bit sums wrap in a release build and panic in a debug
build.
-/
import LlmCtl.Completion

namespace LlmCtl

/-! ## 64-bit sums -/

/-- Is the number an `i64`, and a `BIGINT`? -/
def inI64 (n : ℤ) : Bool := decide (-2 ^ 63 ≤ n ∧ n < 2 ^ 63)

/-- `a + b` on `i64`; with overflow checks a sum out of range panics. -/
def addI64 (overflowChecks : Bool) (a b : ℤ) : Option ℤ :=
  if inI64 (a + b) then some (a + b)
  else if overflowChecks then none
  else some ((a + b).bmod (2 ^ 64))

/-- A sum differs from the mathematical one by a multiple of 2^64. -/
theorem addI64_mod {checks : Bool} {a b n : ℤ} (h : addI64 checks a b = some n) :
    ∃ k, n = a + b - 2 ^ 64 * k := by
  unfold addI64 at h
  split at h
  · exact ⟨0, by simpa using (Option.some.inj h).symm⟩
  · split at h
    · exact absurd h (by simp)
    · refine ⟨(a + b).bdiv (2 ^ 64), ?_⟩
      rw [← Option.some.inj h, Int.bmod_eq_self_sub_mul_bdiv]
      rfl

/-- A sum in range is the mathematical one. -/
theorem addI64_of_inI64 {checks : Bool} {a b : ℤ} (h : inI64 (a + b) = true) :
    addI64 checks a b = some (a + b) := by rw [addI64, if_pos h]

/-- Only numbers in range are read. -/
theorem inI64_asI64 {v : Json} {n : ℤ} (h : v.asI64 = some n) : inI64 n = true := by
  cases v with
  | int m =>
    simp only [Json.asI64] at h
    split at h
    · next hrange =>
      obtain rfl := Option.some.inj h
      exact decide_eq_true hrange
    · exact absurd h (by simp)
  | _ => exact absurd h (by simp [Json.asI64])

/-- A number that is read, or zero. -/
theorem inI64_getD (v : Option Json) : inI64 ((v.bind Json.asI64).getD 0) = true := by
  cases h : v.bind Json.asI64 with
  | none => decide
  | some n =>
    obtain ⟨w, -, hw⟩ := Option.bind_eq_some_iff.mp h
    exact inI64_asI64 hw

theorem inI64_numI (v : Option Json) (key : String) : inI64 (numI v key) = true := inI64_getD _

/-! ## What is captured -/

/-- What a request asks for, as far as it is recorded. -/
structure Asked where
  sessionId : String
  model : String
  messages : Option Json
  maxTokens : Option ℤ
  temperature : Option ℚ

/-- `handle_completion`: the request's part of a turn. -/
def Asked.ofBody (sessionId model : String) (body : Json) : Asked where
  sessionId := sessionId
  model := model
  messages := body.get? "messages"
  maxTokens := (body.get? "max_tokens").bind Json.asI64
  temperature := (body.get? "temperature").bind Json.asF64

/-- What is captured of an answer. -/
structure Capture where
  id : Option String
  content : Option String
  finish : Option String
  usage : Option Json
  timings : Option Json

/-- `record_from_response`: what is captured of an answer that is one JSON value. -/
def Capture.ofAnswer (v : Json) : Capture :=
  let ch0 := (v.get? "choices").bind fun c => c.at? 0
  { id := (v.get? "id").bind Json.asStr
    content := ((ch0.bind fun c => c.get? "message").bind fun m => m.get? "content").bind
      Json.asStr
    finish := (ch0.bind fun c => c.get? "finish_reason").bind Json.asStr
    usage := v.get? "usage"
    timings := v.get? "timings" }

/-- `num`. -/
def num (v : Option Json) (key : String) : ℚ :=
  ((v.bind fun x => x.get? key).bind Json.asF64).getD 0

/-- `build_turn`: the cached tokens that `usage` reports. -/
def cachedTokens (usage : Option Json) : ℤ :=
  (((usage.bind fun u => u.get? "prompt_tokens_details").bind
    fun d => d.get? "cached_tokens").bind Json.asI64).getD 0

/-- The prompt's counts are added up, and the sum does not fit an `i64`. -/
def Capture.overflows (cap : Capture) : Bool :=
  decide (numI cap.usage "prompt_tokens" ≤ 0) &&
    !inI64 (numI cap.timings "prompt_n" + numI cap.timings "cache_n")

/-! ## The turn -/

/-- `Turn` of `store.rs`. -/
structure TurnRow extends Turn where
  requestMessages : Option Json
  requestMaxTokens : Option ℤ
  requestTemperature : Option ℚ
  responseId : Option String
  responseContent : Option String
  responseFinishReason : Option String
  promptMs : ℚ
  promptPerSecond : ℚ
  predictedMs : ℚ
  predictedPerSecond : ℚ
  usagePromptTokens : ℤ
  usageCompletionTokens : ℤ
  usageCachedTokens : ℤ
  durationMs : ℚ

namespace TurnRow

/-- `prompt_tokens` of `build_turn`: from `usage`, else from `timings`. -/
def promptTokens (overflowChecks : Bool) (usage timings : Option Json) : Option ℤ :=
  if numI usage "prompt_tokens" > 0 then some (numI usage "prompt_tokens")
  else addI64 overflowChecks (numI timings "prompt_n") (numI timings "cache_n")

/-- `completion_tokens` of `build_turn`. -/
def completionTokens (usage timings : Option Json) : ℤ :=
  if numI usage "completion_tokens" > 0 then numI usage "completion_tokens"
  else numI timings "predicted_n"

/-- `cached_tokens` of `build_turn`. -/
def usedCache (usage timings : Option Json) : ℤ :=
  if cachedTokens usage > 0 then cachedTokens usage else numI timings "cache_n"

/-- **`build_turn`.**  Nothing when the sum of the prompt tokens panics. -/
def buildTurn (overflowChecks : Bool) (asked : Asked) (cap : Capture) (durationMs : ℚ) :
    Option TurnRow :=
  (promptTokens overflowChecks cap.usage cap.timings).map fun promptTokens =>
    { sessionId := asked.sessionId
      requestModel := asked.model
      requestMessages := asked.messages
      requestMaxTokens := asked.maxTokens
      requestTemperature := asked.temperature
      responseId := cap.id
      responseContent := cap.content
      responseFinishReason := cap.finish
      cacheN := numI cap.timings "cache_n"
      promptN := numI cap.timings "prompt_n"
      promptMs := num cap.timings "prompt_ms"
      promptPerSecond := num cap.timings "prompt_per_second"
      predictedN := numI cap.timings "predicted_n"
      predictedMs := num cap.timings "predicted_ms"
      predictedPerSecond := num cap.timings "predicted_per_second"
      usagePromptTokens := promptTokens
      usageCompletionTokens := completionTokens cap.usage cap.timings
      usageCachedTokens := usedCache cap.usage cap.timings
      durationMs := durationMs }

/-- `build_turn` panics on a sum that does not fit, in a build with overflow checks. -/
theorem buildTurn_eq_none_iff {checks : Bool} {asked : Asked} {cap : Capture} {ms : ℚ} :
    buildTurn checks asked cap ms = none ↔ checks = true ∧ cap.overflows = true := by
  unfold buildTurn promptTokens addI64 Capture.overflows
  rw [Option.map_eq_none_iff]
  by_cases husage : numI cap.usage "prompt_tokens" > 0
  · have hnot : ¬ numI cap.usage "prompt_tokens" ≤ 0 := Int.not_le.mpr husage
    simp [husage, hnot]
  · cases inI64 (numI cap.timings "prompt_n" + numI cap.timings "cache_n") with
    | true => simp [husage]
    | false => cases checks <;> simp [husage, Int.not_lt.mp husage]

/-- What the daemon looks at is part of the whole turn. -/
theorem buildTurn_toTurn {checks : Bool} {asked : Asked} {cap : Capture} {ms : ℚ} {t : TurnRow}
    (h : buildTurn checks asked cap ms = some t) :
    t.toTurn = LlmCtl.buildTurn asked.sessionId asked.model cap.timings := by
  obtain ⟨n, -, rfl⟩ := Option.map_eq_some_iff.mp h
  rfl

/-- The text of a turn is the text that was captured. -/
theorem buildTurn_content {checks : Bool} {asked : Asked} {cap : Capture} {ms : ℚ} {t : TurnRow}
    (h : buildTurn checks asked cap ms = some t) : t.responseContent = cap.content := by
  obtain ⟨n, -, rfl⟩ := Option.map_eq_some_iff.mp h
  rfl

/-- `record_fake_turn`: the turn that it records. -/
def fake (sessionId model : String) : TurnRow where
  sessionId := sessionId
  requestModel := model
  requestMessages := none
  requestMaxTokens := none
  requestTemperature := none
  responseId := none
  responseContent := none
  responseFinishReason := none
  cacheN := 7
  promptN := 3
  promptMs := 0
  promptPerSecond := 553 / 10
  predictedN := 40
  predictedMs := 0
  predictedPerSecond := 2432 / 10
  usagePromptTokens := 0
  usageCompletionTokens := 0
  usageCachedTokens := 0
  durationMs := 43557 / 100

end TurnRow

end LlmCtl
