/-
# The panel shows texts as texts (`web/assets/app.js`)

Texts from clients, from other tiers and from the disk reach the panel, which puts them into HTML.
The markup of what it assigns is that of its own templates: it is the same for any two replies of
the daemon whose lists have the same lengths (`panel_injection_free`).
-/
import LlmCtl.PanelRender

namespace LlmCtl

namespace Panel

open Js TextTemplate

/-! ## The markup of a piece of the script -/

/-- The elements that the piece assigns to, with the markup of what it assigns. -/
def markupOf (p : PageM Unit) (activeJob : Option String) : List (String × List Char) :=
  (p.run.run ⟨[], activeJob⟩).2.writes.map HtmlWrite.markup

theorem markupOf_does {p : PageM Unit} {ms : List (String × List Char)}
    (h : Does p fun _ ws => ws.map HtmlWrite.markup = ms) (activeJob : Option String) :
    markupOf p activeJob = ms := by
  obtain ⟨a, ws, active, hrun, hws⟩ := h ⟨[], activeJob⟩
  rw [markupOf, hrun]
  exact hws

theorem markupOf_throws {p : PageM Unit} {ms : List (String × List Char)}
    (h : Throws p fun ws => ws.map HtmlWrite.markup = ms) (activeJob : Option String) :
    markupOf p activeJob = ms := by
  obtain ⟨ws, active, hrun, hws⟩ := h ⟨[], activeJob⟩
  rw [markupOf, hrun]
  exact hws

/-- **The panel and the daemon**: whatever the daemon says in a status, the markup that the panel
makes of it is given by the lengths of the lists. -/
theorem statusRollup_markup {host : Host} (hplain : PlainHost host) (env : ApiEnv)
    {commit branch : Option String} {binary : String}
    (hllama : env.llamaInfo = llamaBuildInfo commit branch binary) :
    (Api.handleStatusRollup env).Ensures fun reply =>
      ∃ body, reply = .json 200 body ∧ ∀ activeJob,
        markupOf (render host (.json body)) activeJob
          = renderMarkup (body.listLength "models") (body.listLength "sessions")
              (body.listLength "builds") := by
  refine (statusRollup_fits env hllama).imp fun reply h => ?_
  obtain ⟨body, rfl, hfits⟩ := h
  exact ⟨body, rfl, markupOf_throws (render_spec hplain hfits)⟩

/-- Whatever the daemon says about the files of a repository, the markup that the panel makes of it
is given by their number. -/
theorem hfFiles_markup {host : Host} (hplain : PlainHost host) (env : ApiEnv) (req : Request)
    (hquery : ∀ q r, env.queryMap q = .error r → ∃ status text, r = .rejected status text) :
    (Api.handleHfFiles env req).Ensures fun reply =>
      ∀ body, reply = .json 200 body → ∀ repo activeJob, repo ≠ "" →
        markupOf (hfList host repo (.ok (.json body))) activeJob
          = hfListMarkup (body.listLength "files") := by
  refine (hfFiles_fits env req hquery).imp fun reply h body hreply repo activeJob hrepo => ?_
  exact markupOf_does (hfList_spec hplain hrepo (h body hreply)) activeJob

/-! ## A browser -/

section Browser

/-- The digits of a number, with leading zeros. -/
def digits (width n : ℕ) : List Char :=
  let ds := Nat.toDigits 10 n
  List.replicate (width - ds.length) '0' ++ ds

def signed (q : ℚ) (t : List Char) : List Char := if q < 0 then '-' :: t else t

/-- The year, the month and the day, so many days after the first of January 1970. -/
def civil (days : ℕ) : ℕ × ℕ × ℕ :=
  -- An era has 400 years, which begin in March.
  let shifted := days + 719468
  let dayOfEra := shifted % 146097
  let yearOfEra :=
    (dayOfEra - dayOfEra / 1460 + dayOfEra / 36524 - dayOfEra / 146096) / 365
  let dayOfYear := dayOfEra - (365 * yearOfEra + yearOfEra / 4 - yearOfEra / 100)
  let month := (5 * dayOfYear + 2) / 153
  (yearOfEra + 400 * (shifted / 146097) + (if month < 10 then 0 else 1),
    (if month < 10 then month + 3 else month - 9), dayOfYear - (153 * month + 2) / 5 + 1)

/-- A date in London in winter, with the time of the day. -/
def londonDate (seconds : ℕ) : List Char :=
  let date := civil (seconds / 86400)
  digits 2 date.2.2 ++ ('/' :: digits 2 date.2.1) ++ ('/' :: digits 4 date.1) ++
    (", ".toList ++ digits 2 (seconds / 3600 % 24)) ++ (':' :: digits 2 (seconds / 60 % 60)) ++
    (':' :: digits 2 (seconds % 60))

/-- A browser, as far as whole numbers and dates after 1970 go.  A text counts as no number. -/
def londonHost : Host where
  Num := Option ℚ
  number
    | .json .null => some 0
    | .json (.bool b) => some (if b then 1 else 0)
    | .json (.int n) => some n
    | .json (.float q) => some q
    | _ => none
  isFinite := Option.isSome
  round := Option.map fun q => (q + 1 / 2).floor
  atLeast q n := q.any fun q => decide ((n : ℚ) ≤ q)
  text
    | none => "NaN"
    | some q => String.ofList (signed q (digits 1 q.floor.natAbs))
  toFixed
    | none => "NaN"
    | some q =>
      let tenths := (10 * |q| + 1 / 2).floor.toNat
      String.ofList (signed q (digits 1 (tenths / 10) ++ ('.' :: digits 1 (tenths % 10))))
  localeString
    | none => "Invalid Date"
    | some q => String.ofList (londonDate q.floor.toNat)

example : londonHost.localeString (some 1719835384) = "01/07/2024, 12:03:04" := by decide

theorem inert_digits (width n : ℕ) : Inert isMarkup (digits width n) := by
  intro c hc
  have hdigit : c.isDigit = true := by
    rcases List.mem_append.mp hc with hc | hc
    · rw [List.eq_of_mem_replicate hc]
      decide
    · exact Nat.isDigit_of_mem_toDigits (by decide) (by decide) hc
  cases hmark : isMarkup c with
  | false => rfl
  | true =>
    rw [isMarkup, Bool.or_eq_true, Bool.or_eq_true, beq_iff_eq, beq_iff_eq, beq_iff_eq] at hmark
    obtain (rfl | rfl) | rfl := hmark <;> exact absurd hdigit (by decide)

theorem inert_cons {c : Char} {t : List Char} (hc : isMarkup c = false) (ht : Inert isMarkup t) :
    Inert isMarkup (c :: t) := List.forall_mem_cons.mpr ⟨hc, ht⟩

theorem inert_signed (q : ℚ) {t : List Char} (ht : Inert isMarkup t) :
    Inert isMarkup (signed q t) := by
  rw [signed]
  split
  · exact inert_cons (by decide) ht
  · exact ht

theorem inert_londonDate (seconds : ℕ) : Inert isMarkup (londonDate seconds) := by
  have hcomma : Inert isMarkup ", ".toList := by decide
  refine Inert.append (Inert.append (Inert.append (Inert.append (Inert.append ?_ ?_) ?_) ?_) ?_) ?_
  · exact inert_digits _ _
  · exact inert_cons (by decide) (inert_digits _ _)
  · exact inert_cons (by decide) (inert_digits _ _)
  · exact hcomma.append (inert_digits _ _)
  · exact inert_cons (by decide) (inert_digits _ _)
  · exact inert_cons (by decide) (inert_digits _ _)

theorem plain_londonHost : PlainHost londonHost where
  text q := by
    cases q with
    | none => decide
    | some q =>
      show Inert isMarkup (String.ofList _).toList
      rw [String.toList_ofList]
      exact inert_signed q (inert_digits _ _)
  toFixed q := by
    cases q with
    | none => decide
    | some q =>
      show Inert isMarkup (String.ofList _).toList
      rw [String.toList_ofList]
      exact inert_signed q ((inert_digits _ _).append (inert_cons (by decide) (inert_digits _ _)))
  localeString q := by
    cases q with
    | none => decide
    | some q =>
      show Inert isMarkup (String.ofList _).toList
      rw [String.toList_ofList]
      exact inert_londonDate _

end Browser

/-! ## Two replies -/

/-- Some lists of two replies have the same lengths. -/
def SameLengths (keys : List String) (v v' : Json) : Prop :=
  ∀ key ∈ keys, v.listLength key = v'.listLength key

instance (keys : List String) (v v' : Json) : Decidable (SameLengths keys v v') :=
  inferInstanceAs (Decidable (∀ key ∈ keys, v.listLength key = v'.listLength key))

/-- **The panel is free of injection.**  For two statuses whose lists have the same lengths, and
for two listings of the same number of files, the markup of what is assigned to `innerHTML` is the
same; so it is when two listings fail.  What the texts and the numbers are does not matter; nor
does it matter which model is active, which builds are good and which colours are shown. -/
theorem panel_injection_free (host : Host) (hplain : PlainHost host) :
    (∀ s s' job job', statusShape.Fits s → statusShape.Fits s' →
      SameLengths ["models", "sessions", "builds"] s s' →
      markupOf (render host (.json s)) job = markupOf (render host (.json s')) job') ∧
    (∀ repo repo' r r' job job', repo ≠ "" → repo' ≠ "" → filesShape.Fits r →
      filesShape.Fits r' → SameLengths ["files"] r r' →
      markupOf (hfList host repo (.ok (.json r))) job
        = markupOf (hfList host repo' (.ok (.json r'))) job') ∧
    (∀ repo repo' job job', repo ≠ "" → repo' ≠ "" →
      markupOf (hfList host repo (.error .typeError)) job
        = markupOf (hfList host repo' (.error .typeError)) job') := by
  refine ⟨?_, ?_, ?_⟩
  · intro s s' job job' hs hs' hsame
    rw [markupOf_throws (render_spec hplain hs), markupOf_throws (render_spec hplain hs'),
      hsame "models" (by simp), hsame "sessions" (by simp), hsame "builds" (by simp)]
  · intro repo repo' r r' job job' hrepo hrepo' hr hr' hsame
    rw [markupOf_does (hfList_spec hplain hrepo hr), markupOf_does (hfList_spec hplain hrepo' hr'),
      hsame "files" (by simp)]
  · intro repo repo' job job' hrepo hrepo'
    rw [markupOf_does (hfList_failed host hrepo), markupOf_does (hfList_failed host hrepo')]

/-- A status with one model, one session and one build, all texts and all numbers of which are
given. -/
def sampleStatus (t : String) (n : ℕ) : Json :=
  .obj [("worker", .obj [("model", .str t), ("pid", .int n), ("status", .str t),
      ("last_request_at", .float n), ("last_turn", .null), ("slots", .null), ("metrics", .null)]),
    ("models", .arr [.obj [("id", .str t), ("model", .str t), ("autostart", .bool false),
      ("description", .str t), ("active", .bool true), ("status", .str t)]]),
    ("sessions", .arr [.obj [("id", .str t), ("model", .str t), ("requests", .int n),
      ("prompt_tokens", .int n), ("completion_tokens", .int n), ("cache_tokens", .int n),
      ("cache_hit_pct", .float n), ("prompt_ms", .float n), ("completion_ms", .float n)]]),
    ("download", Api.downloadJson .idle), ("rebuild", Api.rebuildJson .idle),
    ("llama", llamaBuildInfo (some t) (some t) t),
    ("builds", .arr [.obj [("at", .float n), ("before_sha", .str t), ("after_sha", .null),
      ("ok", .bool true)]]),
    ("stats", .obj []), ("cross_tier", .obj [("pve", .bool true), ("postgres", .bool false)])]

/-- A listing of one file. -/
def sampleFiles (t : String) (n : ℕ) : Json :=
  .obj [("repo", .str t), ("files", .arr [.obj [("path", .str t), ("size_mb", .float n)]])]

/-- A tag in every text leaves the markup as it is. -/
theorem panel_injection_free_tag :
    markupOf (render londonHost (.json (sampleStatus "gemma" 60))) none
      = markupOf (render londonHost (.json (sampleStatus "\"><script>" 1719835384))) none ∧
    markupOf (hfList londonHost "org/repo" (.ok (.json (sampleFiles "a.gguf" 4000)))) none
      = markupOf (hfList londonHost "org/repo" (.ok (.json (sampleFiles "\"><b>" 7)))) none :=
  have h := panel_injection_free londonHost plain_londonHost
  ⟨h.1 _ _ none none (by decide) (by decide) (by decide),
    h.2.1 _ _ _ _ none none (by decide) (by decide) (by decide) (by decide)
      (by decide)⟩

end Panel

end LlmCtl
