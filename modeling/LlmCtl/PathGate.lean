/-
# Which requests pass the completion gates (`proxy.rs`)

`fallback` looks at the path as the client spelled it.  The worker decodes a path before it
routes it, so the same endpoint has many spellings: with an escape in the last bytes the
proxy forwards a completion like any other request.
-/
import LlmCtl.Http
import LlmCtl.JsonValue
import LlmCtl.PercentDecode

namespace LlmCtl

open PercentDecode

/-- `"/chat/completions"`. -/
def chatCompletionsSuffix : List UInt8 := asciiBytes "/chat/completions"

/-- `"/completions"`. -/
def completionsSuffix : List UInt8 := asciiBytes "/completions"

/-- `path.ends_with("/chat/completions") || path.ends_with("/completions")`. -/
def isCompletionPath (path : List UInt8) : Bool :=
  decide (chatCompletionsSuffix <:+ path) || decide (completionsSuffix <:+ path)

/-- `worker_base`. -/
def workerBase (port : ℕ) : String := "http://127.0.0.1:" ++ toString port

/-- What `fallback` does with a request. -/
inductive Dispatch where
  | reply (body : Json)
  | completion
  | forward

/-- `fallback`. -/
def fallback (port : ℕ) (method : Method) (path : List UInt8) : Dispatch :=
  if path = asciiBytes "/" then
    .reply (.obj [("service", .str "llm-ctl"), ("status", .str "ok"),
      ("worker_base", .str (workerBase port))])
  else if method = .post && isCompletionPath path then .completion
  else .forward

/-- The last bytes of the path spell the endpoint out, without an escape. -/
def SpelledOut (path : List UInt8) : Prop := literal completionsSuffix <:+ decodeMarked path

/-- The longer suffix ends in the shorter one. -/
theorem isCompletionPath_iff {path : List UInt8} :
    isCompletionPath path = true ↔ completionsSuffix <:+ path := by
  rw [isCompletionPath, Bool.or_eq_true, decide_eq_true_iff, decide_eq_true_iff]
  constructor
  · rintro (hchat | hplain)
    · have hends : completionsSuffix <:+ chatCompletionsSuffix := by decide
      exact hends.trans hchat
    · exact hplain
  · exact .inr

/-- The raw path ends in the suffix just if the endpoint is spelled out. -/
theorem isCompletionPath_iff_spelledOut {path : List UInt8} :
    isCompletionPath path = true ↔ SpelledOut path := by
  rw [isCompletionPath_iff, SpelledOut]
  have hhead : hexValue 47 = none := by decide
  have hplain : ∀ b ∈ completionsSuffix, b ≠ percent := by decide +kernel
  exact @suffix_iff path 47 (asciiBytes "completions") hhead hplain

/-- Only a POST to a path that ends in the suffix is a completion. -/
theorem fallback_eq_completion_iff {port : ℕ} {method : Method} {path : List UInt8} :
    fallback port method path = .completion ↔ method = .post ∧ isCompletionPath path = true := by
  unfold fallback
  split
  · next hroot =>
    have hnot : isCompletionPath path = false := by
      rw [hroot]
      decide
    simp [hnot]
  · simp

theorem fallback_post_eq_completion {port : ℕ} {path : List UInt8} :
    fallback port .post path = .completion ↔ isCompletionPath path = true := by
  rw [fallback_eq_completion_iff, and_iff_right rfl]

/-- **The gate is not bypassed** just by those paths that name a completion only after they are
decoded. -/
theorem gate_not_bypassed_iff (port : ℕ) (path : List UInt8) :
    (isCompletionPath (decode path) = true → fallback port .post path = .completion) ↔
      (isCompletionPath (decode path) = true → SpelledOut path) := by
  have hspelled : isCompletionPath path = true ↔ SpelledOut path := isCompletionPath_iff_spelledOut
  rw [fallback_post_eq_completion, hspelled]

/-- **A completion with an escape in its name is forwarded.** -/
theorem escaped_completion_bypasses_gate :
    ¬ ∀ (port : ℕ) (path : List UInt8), isCompletionPath (decode path) = true →
      fallback port .post path = .completion := by
  intro hall
  have hends := hall 8080 (asciiBytes "/v1/chat/%63ompletions") (by decide)
  rw [fallback_post_eq_completion] at hends
  exact absurd hends (by decide)

end LlmCtl
