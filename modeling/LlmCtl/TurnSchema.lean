/-
# Does every turn fit its table? (`store.rs`, `proxy.rs`, `migrations/0001_init.sql`)

`record_turn` binds the fields of a turn to the columns of `turns`.  Rust types, JSON accessors
and column types were written apart: `request_max_tokens` is an `i64` for an `INTEGER`, and a text
may hold a NUL, which PostgreSQL refuses in `TEXT` and in `JSONB`.  A turn is stored just if its
client and its worker send neither.
-/
import LlmCtl.SessionStore
import LlmCtl.StreamCollector

namespace LlmCtl

/-! ## Columns and values -/

/-- The types of the columns. -/
inductive ColumnType where
  | text
  | jsonb
  | integer
  | bigint
  | doublePrecision
  deriving DecidableEq, Repr

structure Column where
  name : String
  type : ColumnType
  nullable : Bool
  deriving DecidableEq, Repr

/-- A value that is bound to a placeholder. -/
inductive SqlValue where
  | null
  | text (s : String)
  | json (v : Json)
  | int (n : ℤ)
  | double (q : ℚ)

/-- A text without NUL. -/
def textFits (s : String) : Bool := !s.toList.contains '\x00'

/-- A value none of whose texts and keys holds a NUL. -/
def jsonFits : Json → Bool
  | .null | .bool _ | .int _ | .float _ => true
  | .str s => textFits s
  | .arr items => itemsFit items
  | .obj fields => fieldsFit fields
where
  itemsFit : List Json → Bool
    | [] => true
    | v :: vs => jsonFits v && itemsFit vs
  fieldsFit : List (String × Json) → Bool
    | [] => true
    | (key, v) :: fs => textFits key && jsonFits v && fieldsFit fs

example : jsonFits (.arr [.obj [("content", .str "\x00")]]) = false := by decide

/-- Is the number an `INTEGER`? -/
def inI32 (n : ℤ) : Bool := decide (-2 ^ 31 ≤ n ∧ n < 2 ^ 31)

/-- Is the value in the domain of the column? -/
def Column.accepts (c : Column) : SqlValue → Bool
  | .null => c.nullable
  | .text s => decide (c.type = .text) && textFits s
  | .json v => decide (c.type = .jsonb) && jsonFits v
  | .int n =>
    match c.type with
    | .integer => inI32 n
    | .bigint => inI64 n
    | _ => false
  | .double _ => decide (c.type = .doublePrecision)

/-- `migrations/0001_init.sql`: the columns that the INSERT of `record_turn` binds, in its order.
(The server fills in `id` and `timestamp`.) -/
def turnColumns : List Column :=
  [⟨"session_id", .text, false⟩, ⟨"turn_index", .bigint, false⟩,
    ⟨"request_model", .text, true⟩, ⟨"request_messages", .jsonb, true⟩,
    ⟨"request_max_tokens", .integer, true⟩, ⟨"request_temperature", .doublePrecision, true⟩,
    ⟨"response_id", .text, true⟩, ⟨"response_content", .text, true⟩,
    ⟨"response_finish_reason", .text, true⟩, ⟨"cache_n", .bigint, false⟩,
    ⟨"prompt_n", .bigint, false⟩, ⟨"prompt_ms", .doublePrecision, false⟩,
    ⟨"prompt_per_second", .doublePrecision, false⟩, ⟨"predicted_n", .bigint, false⟩,
    ⟨"predicted_ms", .doublePrecision, false⟩,
    ⟨"predicted_per_second", .doublePrecision, false⟩,
    ⟨"usage_prompt_tokens", .bigint, false⟩, ⟨"usage_completion_tokens", .bigint, false⟩,
    ⟨"usage_cached_tokens", .bigint, false⟩, ⟨"duration_ms", .doublePrecision, false⟩]

/-- A bound `Option`. -/
def orNull {α : Type} (f : α → SqlValue) : Option α → SqlValue
  | none => .null
  | some x => f x

/-- `record_turn`: the values that the INSERT binds. -/
def TurnRow.bindings (t : TurnRow) (index : ℤ) : List SqlValue :=
  [.text t.sessionId, .int index, .text t.requestModel, orNull .json t.requestMessages,
    orNull .int t.requestMaxTokens, orNull .double t.requestTemperature,
    orNull .text t.responseId, orNull .text t.responseContent,
    orNull .text t.responseFinishReason, .int t.cacheN, .int t.promptN, .double t.promptMs,
    .double t.promptPerSecond, .int t.predictedN, .double t.predictedMs,
    .double t.predictedPerSecond, .int t.usagePromptTokens, .int t.usageCompletionTokens,
    .int t.usageCachedTokens, .double t.durationMs]

/-- **The INSERT accepts the turn**: each bound value is in the domain of its column. -/
def TurnRow.fitsSchema (t : TurnRow) (index : ℤ) : Bool :=
  (turnColumns.zip (t.bindings index)).all fun p => p.1.accepts p.2

/-! ## What the columns ask of a turn -/

theorem accepts_orNull {α : Type} {f : α → SqlValue} {fits : α → Bool} {c : Column}
    (hnull : c.nullable = true) (hf : ∀ x, c.accepts (f x) = fits x) (x : Option α) :
    c.accepts (orNull f x) = x.all fits := by
  cases x with
  | none => exact hnull
  | some x => exact hf x

/-- **What the columns ask of a turn.** -/
theorem fitsSchema_iff (t : TurnRow) (index : ℤ) :
    t.fitsSchema index = true ↔
      (textFits t.sessionId = true ∧ textFits t.requestModel = true ∧
        t.requestMessages.all jsonFits = true ∧ t.requestMaxTokens.all inI32 = true ∧
        t.responseId.all textFits = true ∧ t.responseContent.all textFits = true ∧
        t.responseFinishReason.all textFits = true) ∧
      inI64 index = true ∧ inI64 t.cacheN = true ∧ inI64 t.promptN = true ∧
        inI64 t.predictedN = true ∧ inI64 t.usagePromptTokens = true ∧
        inI64 t.usageCompletionTokens = true ∧ inI64 t.usageCachedTokens = true := by
  have htext : ∀ (name : String) (x : Option String),
      (⟨name, .text, true⟩ : Column).accepts (orNull .text x) = x.all textFits :=
    fun name => accepts_orNull rfl fun _ => rfl
  have hjson : ∀ (name : String) (x : Option Json),
      (⟨name, .jsonb, true⟩ : Column).accepts (orNull .json x) = x.all jsonFits :=
    fun name => accepts_orNull rfl fun _ => rfl
  have hint : ∀ (name : String) (x : Option ℤ),
      (⟨name, .integer, true⟩ : Column).accepts (orNull .int x) = x.all inI32 :=
    fun name => accepts_orNull rfl fun _ => rfl
  have hdouble : ∀ (name : String) (x : Option ℚ),
      (⟨name, .doublePrecision, true⟩ : Column).accepts (orNull .double x) = true := by
    intro name x
    cases x <;> rfl
  have hcol : ∀ name s, (⟨name, .text, true⟩ : Column).accepts (.text s) = textFits s :=
    fun _ _ => rfl
  have hkey : ∀ name s, (⟨name, .text, false⟩ : Column).accepts (.text s) = textFits s :=
    fun _ _ => rfl
  have hbig : ∀ name n, (⟨name, .bigint, false⟩ : Column).accepts (.int n) = inI64 n :=
    fun _ _ => rfl
  have hfloat : ∀ name q, (⟨name, .doublePrecision, false⟩ : Column).accepts (.double q) = true :=
    fun _ _ => rfl
  simp only [TurnRow.fitsSchema, turnColumns, TurnRow.bindings, List.zip_cons_cons,
    List.zip_nil_right, List.all_cons, List.all_nil, htext, hjson, hint, hdouble, hcol, hkey, hbig,
    hfloat, Bool.and_eq_true, Bool.true_and, Bool.and_true]
  tauto

/-- A turn that fits is not refused for a number out of range by the INSERT of `SessionStore`. -/
theorem insertTurnRow_ne_outOfRange {r : StoredTurn} (h : r.turn.fitsSchema r.turnIndex = true)
    (latest : Tables) : insertTurnRow r latest ≠ .error .outOfRange := by
  have hmax : r.turn.requestMaxTokens.all inI32 = true := ((fitsSchema_iff _ _).mp h).1.2.2.2.1
  have hlimit : (r.turn.requestMaxTokens.any fun n => !inI32 n) = false := by
    cases hm : r.turn.requestMaxTokens with
    | none => rfl
    | some n =>
      rw [hm, Option.all_some] at hmax
      rw [Option.any_some, hmax]
      rfl
  have hif : insertTurnRow r latest =
      if (r.turn.requestMaxTokens.any fun n => !inI32 n) = true then .error .outOfRange
      else if (latest.turnsOf r.turn.sessionId).any fun x => x.turnIndex == r.turnIndex then
        .error .uniqueViolation
      else if (latest.session? r.turn.sessionId).isNone then .error .foreignKeyViolation
      else .ok r := rfl
  rw [hif, hlimit, if_neg (by simp)]
  split
  · simp
  · split
    · simp
    · simp

/-! ## The counts of a turn -/

theorem inI64_cachedTokens (usage : Option Json) : inI64 (cachedTokens usage) = true :=
  inI64_getD _

/-- A sum of two counts is a count, wrapped or not. -/
theorem inI64_addI64 {checks : Bool} {a b n : ℤ} (h : addI64 checks a b = some n) :
    inI64 n = true := by
  unfold addI64 at h
  split at h
  · next hrange =>
    rw [← Option.some.inj h]
    exact hrange
  · split at h
    · exact absurd h (by simp)
    · have hpos : 0 < 2 ^ 64 := Nat.two_pow_pos 64
      have hlow : -(((2 ^ 64 : ℕ) : ℤ) / 2) ≤ (a + b).bmod (2 ^ 64) := Int.le_bmod hpos
      have hhigh : (a + b).bmod (2 ^ 64) < (((2 ^ 64 : ℕ) : ℤ) + 1) / 2 := Int.bmod_lt hpos
      have hcast : ((2 ^ 64 : ℕ) : ℤ) = 18446744073709551616 := by decide
      rw [hcast] at hlow hhigh
      rw [← Option.some.inj h, inI64, decide_eq_true_iff]
      omega

theorem inI64_promptTokens {checks : Bool} {usage timings : Option Json} {n : ℤ}
    (h : TurnRow.promptTokens checks usage timings = some n) : inI64 n = true := by
  unfold TurnRow.promptTokens at h
  split at h
  · rw [← Option.some.inj h]
    exact inI64_numI _ _
  · exact inI64_addI64 h

theorem inI64_completionTokens (usage timings : Option Json) :
    inI64 (TurnRow.completionTokens usage timings) = true := by
  unfold TurnRow.completionTokens
  split <;> exact inI64_numI _ _

theorem inI64_usedCache (usage timings : Option Json) :
    inI64 (TurnRow.usedCache usage timings) = true := by
  unfold TurnRow.usedCache
  split
  · exact inI64_cachedTokens _
  · exact inI64_numI _ _

/-- A session id holds no NUL. -/
theorem textFits_of_isSessionId {s : String} (h : IsSessionId s) : textFits s = true := by
  rw [textFits, Bool.not_eq_true', ← Bool.not_eq_true, List.contains_iff_mem]
  intro hnul
  have hchar := h.2.2 _ hnul
  revert hchar
  decide

/-! ## The property -/

/-- The worker's answer, as far as it reaches the record: one JSON value, or the chunks that the
drain loop reads. -/
inductive WorkerAnswer where
  | plain (v : Json)
  | streamed (chunks : List (List UInt8))

/-- What is captured of it. -/
def WorkerAnswer.capture (parse : String → Option Json) (sessionId : String) :
    WorkerAnswer → Capture
  | .plain v => .ofAnswer v
  | .streamed chunks => (readStream parse sessionId chunks).capture

/-- A `turn_index`, as it is read from the database. -/
abbrev TurnIndex := {n : ℤ // inI64 n = true}

/-- **The turn is recordable**: it is built, and fits the schema. -/
def Recordable (checks : Bool) (asked : Asked) (cap : Capture) (ms : ℚ) (index : TurnIndex) :
    Prop :=
  ∃ t, TurnRow.buildTurn checks asked cap ms = some t ∧ t.fitsSchema index = true

/-! ## The condition -/

/-- Nothing in the request or the answer is out of place: no NUL in a text, a limit that is an
`INTEGER`, and, in a build with overflow checks, a sum that is an `i64`. -/
structure Storable (checks : Bool) (asked : Asked) (cap : Capture) : Prop where
  model : textFits asked.model = true
  messages : asked.messages.all jsonFits = true
  maxTokens : asked.maxTokens.all inI32 = true
  id : cap.id.all textFits = true
  content : cap.content.all textFits = true
  finish : cap.finish.all textFits = true
  sum : checks = true → numI cap.usage "prompt_tokens" ≤ 0 →
    inI64 (numI cap.timings "prompt_n" + numI cap.timings "cache_n") = true

/-! ## Results -/

/-- The prompt tokens are there unless their sum panics. -/
theorem promptTokens_isSome_iff (checks : Bool) (usage timings : Option Json) :
    (∃ n, TurnRow.promptTokens checks usage timings = some n) ↔
      (checks = true → numI usage "prompt_tokens" ≤ 0 →
        inI64 (numI timings "prompt_n" + numI timings "cache_n") = true) := by
  unfold TurnRow.promptTokens
  by_cases hpos : numI usage "prompt_tokens" > 0
  · rw [if_pos hpos]
    exact ⟨fun _ _ hle => absurd hpos (by omega), fun _ => ⟨_, rfl⟩⟩
  · rw [if_neg hpos, addI64]
    by_cases hsum : inI64 (numI timings "prompt_n" + numI timings "cache_n") = true
    · rw [if_pos hsum]
      exact ⟨fun _ _ _ => hsum, fun _ => ⟨_, rfl⟩⟩
    · rw [if_neg hsum]
      cases checks with
      | true =>
        constructor
        · rintro ⟨n, hn⟩
          exact absurd hn (by simp)
        · intro h
          exact absurd (h rfl (by omega)) hsum
      | false => exact ⟨fun _ hf => absurd hf (by simp), fun _ => ⟨_, rfl⟩⟩

/-- **A built turn fits just if its texts and its limit do**; the counts always fit. -/
theorem fitsSchema_buildTurn_iff {checks : Bool} {asked : Asked} {cap : Capture} {ms : ℚ}
    {t : TurnRow} (h : TurnRow.buildTurn checks asked cap ms = some t) (index : TurnIndex) :
    t.fitsSchema index = true ↔
      textFits asked.sessionId = true ∧ textFits asked.model = true ∧
        asked.messages.all jsonFits = true ∧ asked.maxTokens.all inI32 = true ∧
        cap.id.all textFits = true ∧ cap.content.all textFits = true ∧
        cap.finish.all textFits = true := by
  obtain ⟨n, hn, rfl⟩ := Option.map_eq_some_iff.mp h
  rw [fitsSchema_iff]
  constructor
  · exact And.left
  · intro htexts
    exact ⟨htexts, index.2, inI64_numI _ _, inI64_numI _ _, inI64_numI _ _,
      inI64_promptTokens hn, inI64_completionTokens _ _, inI64_usedCache _ _⟩

/-- **A turn is recordable just if nothing in its request or its answer is out of place.**  The
session is the one that `resolve_session` returned. -/
theorem turn_recordable_iff (checks : Bool) (parse : String → Option Json)
    (clientId : Option String) (random : UInt64) (model : String) (body : Json)
    (answer : WorkerAnswer) (ms : ℚ) (index : TurnIndex) :
    Recordable checks (.ofBody (resolvedId clientId random) model body)
        (answer.capture parse (resolvedId clientId random)) ms index ↔
      Storable checks (.ofBody (resolvedId clientId random) model body)
        (answer.capture parse (resolvedId clientId random)) := by
  have hsession : textFits (resolvedId clientId random) = true :=
    textFits_of_isSessionId (isSessionId_resolved clientId random)
  generalize answer.capture parse (resolvedId clientId random) = cap
  constructor
  · rintro ⟨t, ht, hfits⟩
    obtain ⟨-, hmodel, hmessages, hmax, hid, hcontent, hfinish⟩ :=
      (fitsSchema_buildTurn_iff ht index).mp hfits
    obtain ⟨n, hn, -⟩ := Option.map_eq_some_iff.mp ht
    exact ⟨hmodel, hmessages, hmax, hid, hcontent, hfinish,
      (promptTokens_isSome_iff _ _ _).mp ⟨n, hn⟩⟩
  · intro h
    obtain ⟨n, hn⟩ := (promptTokens_isSome_iff checks cap.usage cap.timings).mpr h.sum
    obtain ⟨t, ht⟩ : ∃ t, TurnRow.buildTurn checks
        (.ofBody (resolvedId clientId random) model body) cap ms = some t :=
      ⟨_, Option.map_eq_some_iff.mpr ⟨n, hn, rfl⟩⟩
    exact ⟨t, ht, (fitsSchema_buildTurn_iff ht index).mpr
      ⟨hsession, h.model, h.messages, h.maxTokens, h.id, h.content, h.finish⟩⟩

/-- A body with a limit beyond an `INTEGER`. -/
def longBody : Json := .obj [("messages", .arr []), ("max_tokens", .int (2 ^ 31))]

/-- An answer without usage and timings. -/
def shortAnswer : Json := .obj [("id", .str "x")]

/-- **A large limit loses the turn**: nothing in the answer is out of place. -/
theorem large_limit_is_refused :
    ¬ Recordable false (.ofBody (resolvedId (some "s") 0) "a" longBody)
      (WorkerAnswer.capture (fun _ => none) (resolvedId (some "s") 0) (.plain shortAnswer)) 0
      ⟨0, by decide⟩ := by
  rintro ⟨t, ht, hfits⟩
  have hlimit := ((fitsSchema_buildTurn_iff ht _).mp hfits).2.2.2.1
  exact absurd hlimit (by decide)

end LlmCtl
