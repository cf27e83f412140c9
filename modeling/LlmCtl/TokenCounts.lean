/-
# Token counts from two sources (`proxy.rs`)

An answer tells of its tokens in `usage`, in `timings`, or in both.  `usage` counts the cached
tokens among those of the prompt, `timings` counts them beside; each counter of a turn is taken
from `usage` if it is positive there, else from `timings`.

A side may say nothing, `null` or zero of a counter, as long as the other side tells it: the
counts of the turn are the same.
-/
import LlmCtl.TurnRow

namespace LlmCtl

/-! ## What a field says -/

/-- The field of an object that may be missing. -/
def jsonField (v : Option Json) (key : String) : Option Json := v.bind fun x => x.get? key

/-- The cached tokens of `usage`. -/
def cachedField (usage : Option Json) : Option Json :=
  jsonField (jsonField usage "prompt_tokens_details") "cached_tokens"

/-- The field is absent, null or zero. -/
def Lacks (f : Option Json) : Prop :=
  f = none ∨ f = some .null ∨ f = some (.int 0) ∨ f = some (.float 0)

/-- The field holds the number, or lacks it. -/
def MayTell (f : Option Json) (n : ℤ) : Prop := f = some (.int n) ∨ Lacks f

/-- The field tells the number; of zero, it may say nothing. -/
def Tells (f : Option Json) (n : ℤ) : Prop := f = some (.int n) ∨ (n = 0 ∧ Lacks f)

/-- A field as `build_turn` reads it. -/
def tokenCount (f : Option Json) : ℤ := (f.bind Json.asI64).getD 0

theorem numI_eq (v : Option Json) (key : String) : numI v key = tokenCount (jsonField v key) := rfl

theorem cachedTokens_eq (usage : Option Json) :
    cachedTokens usage = tokenCount (cachedField usage) := rfl

/-- Where a field lacks a number, zero is read. -/
theorem Lacks.tokenCount {f : Option Json} (h : Lacks f) : tokenCount f = 0 := by
  rcases h with rfl | rfl | rfl | rfl <;> rfl

/-- A number in range is read as it stands. -/
theorem tokenCount_int {n : ℤ} (h0 : 0 ≤ n) (hn : n < 2 ^ 63) :
    tokenCount (some (.int n)) = n := by
  show (Json.asI64 (.int n)).getD 0 = n
  rw [Json.asI64, if_pos ⟨by omega, hn⟩, Option.getD_some]

theorem Tells.tokenCount {f : Option Json} {n : ℤ} (h : Tells f n) (h0 : 0 ≤ n)
    (hn : n < 2 ^ 63) : tokenCount f = n := by
  rcases h with rfl | ⟨rfl, hlacks⟩
  · exact tokenCount_int h0 hn
  · exact hlacks.tokenCount

theorem MayTell.tokenCount {f : Option Json} {n : ℤ} (h : MayTell f n) (h0 : 0 ≤ n)
    (hn : n < 2 ^ 63) : tokenCount f = n ∨ tokenCount f = 0 := by
  rcases h with rfl | hlacks
  · exact .inl (tokenCount_int h0 hn)
  · exact .inr hlacks.tokenCount

theorem Tells.mayTell {f : Option Json} {n : ℤ} (h : Tells f n) : MayTell f n :=
  h.imp_right And.right

/-! ## The two sources -/

/-- What `usage` says of `p` evaluated, `c` cached and `n` predicted tokens. -/
structure UsageSays (tells : Option Json → ℤ → Prop) (p c n : ℤ) (usage : Option Json) : Prop where
  prompt : tells (jsonField usage "prompt_tokens") (p + c)
  completion : tells (jsonField usage "completion_tokens") n
  cached : tells (cachedField usage) c

/-- What `timings` says of them. -/
structure TimingsSay (tells : Option Json → ℤ → Prop) (p c n : ℤ) (timings : Option Json) :
    Prop where
  prompt : tells (jsonField timings "prompt_n") p
  cached : tells (jsonField timings "cache_n") c
  predicted : tells (jsonField timings "predicted_n") n

/-- No side says anything else, and each counter is told by one of them. -/
structure Telemetry (p c n : ℤ) (usage timings : Option Json) : Prop where
  usageMay : UsageSays MayTell p c n usage
  timingsMay : TimingsSay MayTell p c n timings
  prompt : Tells (jsonField usage "prompt_tokens") (p + c) ∨
    Tells (jsonField timings "prompt_n") p ∧ Tells (jsonField timings "cache_n") c
  completion : Tells (jsonField usage "completion_tokens") n ∨
    Tells (jsonField timings "predicted_n") n
  cached : Tells (cachedField usage) c ∨ Tells (jsonField timings "cache_n") c

/-- One of the sides tells everything. -/
theorem Telemetry.of_side {p c n : ℤ} {usage timings : Option Json}
    (h : UsageSays Tells p c n usage ∧ TimingsSay MayTell p c n timings ∨
      UsageSays MayTell p c n usage ∧ TimingsSay Tells p c n timings) :
    Telemetry p c n usage timings := by
  rcases h with ⟨hu, ht⟩ | ⟨hu, ht⟩
  · exact ⟨⟨hu.prompt.mayTell, hu.completion.mayTell, hu.cached.mayTell⟩, ht, .inl hu.prompt,
      .inl hu.completion, .inl hu.cached⟩
  · exact ⟨hu, ⟨ht.prompt.mayTell, ht.cached.mayTell, ht.predicted.mayTell⟩,
      .inr ⟨ht.prompt, ht.cached⟩, .inr ht.predicted, .inr ht.cached⟩

/-! ## The counters -/

section

variable {p c n : ℤ} {usage timings : Option Json} (h : Telemetry p c n usage timings)

include h

/-- The tokens of the prompt: those that were evaluated and those from the cache. -/
theorem Telemetry.promptTokens (hp : 0 ≤ p) (hc : 0 ≤ c) (hsum : p + c < 2 ^ 63)
    (checks : Bool) : TurnRow.promptTokens checks usage timings = some (p + c) := by
  have hmay := h.usageMay.prompt.tokenCount (by omega) hsum
  rw [TurnRow.promptTokens, numI_eq, numI_eq, numI_eq]
  split
  · next hpos =>
    rcases hmay with heq | heq
    · rw [heq]
    · omega
  · next hzero =>
    -- `usage` lacks the number, or there are no tokens at all.
    have hmayp := h.timingsMay.prompt.tokenCount hp (by omega)
    have hmayc := h.timingsMay.cached.tokenCount hc (by omega)
    have heq : tokenCount (jsonField timings "prompt_n") + tokenCount (jsonField timings "cache_n")
        = p + c := by
      rcases h.prompt with htold | ⟨htoldp, htoldc⟩
      · have hread := htold.tokenCount (by omega) hsum
        omega
      · rw [htoldp.tokenCount hp (by omega), htoldc.tokenCount hc (by omega)]
    rw [addI64_of_inI64 (by rw [heq]; exact decide_eq_true ⟨by omega, hsum⟩), heq]

/-- The tokens of the answer. -/
theorem Telemetry.completionTokens (hn : 0 ≤ n) (hlt : n < 2 ^ 63) :
    TurnRow.completionTokens usage timings = n := by
  have hmayu := h.usageMay.completion.tokenCount hn hlt
  have hmayt := h.timingsMay.predicted.tokenCount hn hlt
  have htold := h.completion.imp (·.tokenCount hn hlt) (·.tokenCount hn hlt)
  rw [TurnRow.completionTokens, numI_eq, numI_eq]
  split <;> omega

/-- The tokens from the cache. -/
theorem Telemetry.usedCache (hc : 0 ≤ c) (hlt : c < 2 ^ 63) :
    TurnRow.usedCache usage timings = c := by
  have hmayu := h.usageMay.cached.tokenCount hc hlt
  have hmayt := h.timingsMay.cached.tokenCount hc hlt
  have htold := h.cached.imp (·.tokenCount hc hlt) (·.tokenCount hc hlt)
  rw [TurnRow.usedCache, cachedTokens_eq, numI_eq]
  split <;> omega

end

/-- **The counts of a turn do not depend on their source.** -/
theorem token_counts {p c n : ℤ} (hp : 0 ≤ p) (hc : 0 ≤ c) (hn : 0 ≤ n)
    (hprompt : p + c < 2 ^ 63) (hpredicted : n < 2 ^ 63) {cap : Capture}
    (h : Telemetry p c n cap.usage cap.timings) (checks : Bool) (asked : Asked) (ms : ℚ) :
    ∃ t, TurnRow.buildTurn checks asked cap ms = some t ∧
      t.usagePromptTokens = p + c ∧ t.usageCompletionTokens = n ∧ t.usageCachedTokens = c ∧
      0 ≤ t.usageCachedTokens ∧ t.usageCachedTokens ≤ t.usagePromptTokens := by
  have hcached : TurnRow.usedCache cap.usage cap.timings = c := h.usedCache hc (by omega)
  refine ⟨_, congrArg (Option.map _) (h.promptTokens hp hc hprompt checks), rfl,
    h.completionTokens hn hpredicted, hcached, ?_, ?_⟩
  · show 0 ≤ TurnRow.usedCache cap.usage cap.timings
    omega
  · show TurnRow.usedCache cap.usage cap.timings ≤ p + c
    omega

/-- Only `usage`: ten tokens of the prompt, seven of them from the cache. -/
theorem token_counts_usage :
    ∃ t, TurnRow.buildTurn true ⟨"s", "a", none, none, none⟩
        ⟨none, none, none,
          some (.obj [("prompt_tokens", .int 10), ("completion_tokens", .int 40),
            ("prompt_tokens_details", .obj [("cached_tokens", .int 7)])]), none⟩ 1 = some t ∧
      t.usagePromptTokens = 3 + 7 ∧ t.usageCompletionTokens = 40 ∧ t.usageCachedTokens = 7 ∧
      0 ≤ t.usageCachedTokens ∧ t.usageCachedTokens ≤ t.usagePromptTokens :=
  token_counts (by decide) (by decide) (by decide) (by decide) (by decide)
    (.of_side (.inl ⟨⟨.inl rfl, .inl rfl, .inl rfl⟩,
      ⟨.inr (.inl rfl), .inr (.inl rfl), .inr (.inl rfl)⟩⟩))
    true ⟨"s", "a", none, none, none⟩ 1

end LlmCtl
