/-
# The panel (`web/assets/app.js`)

The panel asks for the status of the daemon and shows it.  Where it shows lists, of models,
sessions, builds and files, it puts together a text and assigns it to `innerHTML`, so that what is
in the text is read as markup.  All else goes to `textContent`, to classes and to flags, where
nothing is read as markup; of these statements the model keeps that they look for their elements
and what they may throw.
-/
import LlmCtl.JsValue
import LlmCtl.TextTemplate

namespace LlmCtl

namespace Panel

open Js TextTemplate

/-! ## The page -/

/-- The elements of `index.html` that have an id. -/
def elementIds : List String :=
  ["worker-dot", "worker-status", "pve-status", "pg-status", "llama-info", "models", "hf-repo",
    "hf-list", "hf-files", "hf-go", "hf-include", "hf-job", "rebuild-go", "rebuild-sha",
    "rebuild-job", "rebuild-sha2", "builds", "cpu-val", "cpu-bar", "gpu-val", "gpu-bar",
    "vram-val", "vram-sub", "vram-bar", "temp-val", "temp-bar", "sessions", "joblog"]

/-- An assignment to the `innerHTML` of an element. -/
structure HtmlWrite where
  id : String
  html : String

/-- What the script has assigned so far, and `window._activeJob`. -/
structure Page where
  writes : List HtmlWrite
  activeJob : Option String

/-- A piece of the script, which returns a value or throws. -/
abbrev PageM := ExceptT Thrown (StateM Page)

/-- `$(id)`, and then a property of the element. -/
def element (id : String) : PageM Unit :=
  if id ∈ elementIds then pure () else throw .typeError

/-- The elements that some statements set. -/
def elements (ids : List String) : PageM Unit := ids.forM element

/-- `$(id).innerHTML = html`. -/
def setHtml (id : String) (html : List (TemplatePart Char)) : PageM Unit := do
  element id
  modify fun page => { page with writes := page.writes ++ [⟨id, String.ofList (text html)⟩] }

/-- What a template literal says. -/
def lit (s : String) : TemplatePart Char := .lit s.toList

/-- What is filled in. -/
def fill (s : String) : TemplatePart Char := .hole s.toList

/-! ## Templates -/

/-- The row of a model. -/
def modelHtml (isActive : Bool) (name about : String) : List (TemplatePart Char) :=
  [lit "<div class=\"flex items-center justify-between bg-raised border border-line ",
    lit "rounded px-2 py-1.5\">\n      <div class=\"min-w-0\">\n        <div class=\"truncate ",
    fill (if isActive then "text-lime" else "text-text"),
    lit "\">", fill name, fill (if isActive then " ★" else ""),
    lit "</div>\n        <div class=\"text-faint text-[10px] truncate\">", fill about,
    lit "</div>\n      </div>\n      <button data-act=\"",
    fill (if isActive then "stop" else "start"),
    lit "\" data-id=\"", fill name,
    lit "\"\n        class=\"shrink-0 ml-2 rounded px-2 py-0.5 text-xs font-bold border\n        ",
    fill (if isActive then "border-red text-red hover:bg-red hover:text-black"
      else "border-lime text-lime hover:bg-lime hover:text-black"),
    lit "\">\n        ", fill (if isActive then "stop" else "start"),
    lit "</button>\n    </div>"]

/-- The row of a session. -/
def sessionHtml (id model requests prompt completion cls pct : String) :
    List (TemplatePart Char) :=
  [lit "<tr class=\"border-b border-line/50\">\n      ",
    lit "<td class=\"py-1 pr-2 truncate max-w-32 text-cyan\">", fill id,
    lit "</td>\n      <td class=\"py-1 pr-2 text-dim truncate max-w-24\">", fill model,
    lit "</td>\n      <td class=\"py-1 pr-2 text-right\">", fill requests,
    lit "</td>\n      <td class=\"py-1 pr-2 text-right\">", fill prompt,
    lit "</td>\n      <td class=\"py-1 pr-2 text-right\">", fill completion,
    lit "</td>\n      <td class=\"py-1 text-right ", fill cls, lit "\">", fill pct,
    lit "%</td>\n    </tr>"]

/-- The row that is shown when there are no sessions. -/
def noSessions : List (TemplatePart Char) :=
  [lit "<tr><td colspan=\"6\" class=\"py-2 text-faint\">no sessions</td></tr>"]

/-- The row of a build. -/
def buildHtml (ok : Bool) (t before after : String) : List (TemplatePart Char) :=
  [lit "<div class=\"flex justify-between gap-2 py-0.5 ",
    fill (if ok then "text-lime" else "text-red"),
    lit "\">\n          <span>", fill t,
    lit "</span>\n          <span class=\"truncate\">", fill before, lit " → ", fill after,
    lit "</span>\n          <span>", fill (if ok then "ok" else "failed"), lit "</span></div>"]

/-- The option of a file. -/
def optionHtml (path size : String) : List (TemplatePart Char) :=
  [lit "<option value=\"", fill path, lit "\">", fill path, lit " (", fill size,
    lit " MB)</option>"]

/-- The option that stands first. -/
def chooseOption : TemplatePart Char := lit "<option value=\"\">choose a GGUF…</option>"

/-! ## Texts -/

/-- The replacements of `esc`. -/
def escChar (c : Char) : List Char :=
  if c = '&' then "&amp;".toList
  else if c = '<' then "&lt;".toList
  else if c = '>' then "&gt;".toList
  else if c = '"' then "&quot;".toList
  else if c.toNat = 39 then "&#39;".toList
  else [c]

section Script

variable (host : Host)

/-- `esc`. -/
def esc (v : Js) : Except Thrown String :=
  ((v.nullish (Js.text "")).string host).map fun s => String.ofList (escape escChar s.toList)

/-- `asInt`. -/
def asInt (v : Js) : String :=
  if host.isFinite (host.number v) then host.text (host.round (host.number v)) else "0"

/-- `asFloat`. -/
def asFloat (v : Js) : String :=
  if host.isFinite (host.number v) then host.toFixed (host.number v) else "0.0"

/-! ## Models -/

/-- `models.find((m) => m.active)?.id`. -/
def activeId : List Json → Except Thrown Js
  | [] => .ok .undefined
  | m :: ms => do
    let active ← (Js.json m).get "active"
    if active.truthy then (Js.json m).get "id" else activeId ms

/-- The row of a model. -/
def modelRow (active : Js) (m : Json) : Except Thrown (List (TemplatePart Char)) := do
  let id ← (Js.json m).get "id"
  let description ← (Js.json m).get "description"
  let model ← (Js.json m).get "model"
  let name ← esc host id
  let about ← esc host (description.orElse model)
  return modelHtml (id.strictEq active) name about

/-- The models. -/
def renderModels (s : Js) : PageM Unit := do
  let models ← ((← s.get "models").orElse (.json (.arr []))).items
  let active ← activeId models
  let rows ← (models.mapM (modelRow host active) : Except Thrown _)
  setHtml "models" rows.flatten

/-! ## Sessions -/

/-- The row of a session. -/
def sessionRow (r : Json) : Except Thrown (List (TemplatePart Char)) := do
  let cache := (← (Js.json r).get "cache_hit_pct").orElse (.json (.int 0))
  let cls := if host.atLeast (host.number cache) 50 then "text-lime"
    else if host.atLeast (host.number cache) 20 then "text-magenta" else "text-red"
  let id ← esc host (← (Js.json r).get "id")
  let model ← esc host ((← (Js.json r).get "model").orElse (Js.text ""))
  let requests ← (Js.json r).get "requests"
  let prompt ← (Js.json r).get "prompt_tokens"
  let completion ← (Js.json r).get "completion_tokens"
  let pct ← cache.toFixed host
  return sessionHtml id model (asInt host requests) (asInt host prompt) (asInt host completion) cls
    pct

/-- The sessions. -/
def renderSessions (s : Js) : PageM Unit := do
  let sessions ← ((← s.get "sessions").orElse (.json (.arr []))).items
  let rows ← (sessions.mapM (sessionRow host) : Except Thrown _)
  setHtml "sessions" (if text rows.flatten = [] then noSessions else rows.flatten)

/-! ## Builds -/

/-- The row of a build. -/
def buildRow (b : Json) : Except Thrown (List (TemplatePart Char)) := do
  let finished ← (Js.json b).get "at"
  let t := if finished.truthy then host.localeString (host.number finished) else ""
  let ok ← (Js.json b).get "ok"
  let before ← esc host ((← (Js.json b).get "before_sha").orElse (Js.text "—"))
  let after ← esc host ((← (Js.json b).get "after_sha").orElse (Js.text "—"))
  return buildHtml ok.truthy t before after

/-- The builds. -/
def renderBuilds (s : Js) : PageM Unit := do
  let builds := (← s.get "builds").orElse (.json (.arr []))
  if (← builds.length).truthy then
    let items ← builds.items
    let rows ← (items.mapM (buildRow host) : Except Thrown _)
    setHtml "builds" rows.flatten
  else setHtml "builds" [lit "no recent builds"]

/-! ## What is no markup -/

/-- A value goes into a text. -/
def textOf (v : Js) : PageM Unit := do
  let _ ← v.string host

/-- A value goes into a text if there is one. -/
def textIf (v : Js) : PageM Unit := if v.truthy then textOf host v else pure ()

/-- `v && v.key`. -/
def readIf (v : Js) (key : String) : PageM Unit := do
  if v.truthy then
    let _ ← v.get key

/-- The worker and the other tiers. -/
def renderWorker (s : Js) : PageM Unit := do
  let w := (← s.get "worker").orElse (.json (.obj []))
  textOf host ((← w.get "status").orElse (Js.text "Stopped"))
  element "worker-dot"
  textOf host ((← w.get "model").orElse (Js.text "no model"))
  textIf host (← w.get "pid")
  element "worker-status"
  let cross := (← s.get "cross_tier").orElse (.json (.obj []))
  let _ ← cross.get "pve"
  element "pve-status"
  let _ ← cross.get "postgres"
  element "pg-status"

/-- `(job.log || []).slice(from).join("\n")`, where `from` counts the lines that are left out. -/
def joinLog (job : Js) (left : ℕ → ℕ) : PageM Unit := do
  let log ← ((← job.get "log").orElse (.json (.arr []))).items
  let _ ← stringsOfItems host (log.drop (left log.length))

/-- `showLog`. -/
def showLog (job : Js) : PageM Unit := do
  joinLog host job fun _ => 0
  element "joblog"

/-- `renderJob`. -/
def renderJob (name : String) (job : Js) : PageM Unit := do
  element (name ++ "-job")
  if job.truthy then
    let status ← job.get "status"
    if status.strictEq (Js.text "idle") then pure ()
    else
      joinLog host job fun n => n - 8
      textOf host status
      textIf host (← job.get "error")
      if status.strictEq (Js.text "running") then
        modify fun page => { page with activeJob := some name }
        showLog host job
      else if (← getThe Page).activeJob = some name then
        showLog host job
        modify fun page => { page with activeJob := none }

/-- `v.slice(0, 40)` in a text. -/
def sliceText : Js → PageM Unit
  | .json (.str _) => pure ()
  | v => do
    let _ ← v.items
    textOf host v

/-- The commits of the last rebuild. -/
def shaText (rebuild : Js) : PageM Unit := do
  if rebuild.truthy then
    let before ← rebuild.get "before_sha"
    let after ← rebuild.get "after_sha"
    if after.truthy then
      textOf host (before.orElse (Js.text ""))
      textOf host after
    else if before.truthy then sliceText host before

/-- The elements for the commits. -/
def renderSha (s : Js) : PageM Unit := do
  shaText host (← s.get "rebuild")
  elements ["rebuild-sha", "rebuild-sha2"]

/-- The flags of the controls. -/
def renderControls (s : Js) : PageM Unit := do
  readIf (← s.get "download") "status"
  elements ["hf-repo", "hf-go", "hf-list", "hf-files"]
  readIf (← s.get "rebuild") "status"
  element "rebuild-go"

/-- The build of the worker. -/
def renderLlama (s : Js) : PageM Unit := do
  let li := (← s.get "llama").orElse (.json (.obj []))
  let _ ← esc host (← li.get "commit")
  let _ ← esc host (← li.get "branch")
  let _ ← esc host (← li.get "binary")
  element "llama-info"

/-- `renderStats`.  There is no element whose id begins with `#`. -/
def renderStats : PageM Unit :=
  elements ["cpu-val", "cpu-bar", "gpu-val", "gpu-bar", "vram-val", "vram-bar", "temp-val",
    "temp-bar", "#vram-sub", "#temp-val"]

/-! ## The whole -/

/-- **`render`**, which is given the parsed reply. -/
def render (s : Js) : PageM Unit := do
  renderWorker host s
  renderModels host s
  renderSessions host s
  renderJob host "hf" (← s.get "download")
  renderJob host "rebuild" (← s.get "rebuild")
  renderSha host s
  renderControls s
  renderLlama host s
  renderBuilds host s
  renderStats

/-- The option of a file. -/
def fileOption (f : Json) : Except Thrown (List (TemplatePart Char)) := do
  let path ← esc host (← (Js.json f).get "path")
  let size ← (Js.json f).get "size_mb"
  return optionHtml path (asFloat host size)

/-- **The handler of `hf-list`**, for a repository that is typed in.  `answer` is what `api` gives:
the parsed reply, or it throws. -/
def hfList (repo : String) (answer : Except Thrown Js) : PageM Unit := do
  element "hf-repo"
  if repo = "" then pure ()
  else
    setHtml "hf-files" [lit "<option value=\"\">(loading…)</option>"]
    tryCatch
      (do
        let r ← answer
        let files ← ((← r.get "files").orElse (.json (.arr []))).items
        let options ← (files.mapM (fileOption host) : Except Thrown _)
        setHtml "hf-files" (chooseOption :: options.flatten)
        element "hf-job")
      fun _ => do
        setHtml "hf-files" [chooseOption]
        element "hf-job"

end Script

end Panel

end LlmCtl
