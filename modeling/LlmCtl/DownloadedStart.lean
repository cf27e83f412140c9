/-
# A downloaded model can be started (`download.rs`, `app.js`, `main.rs`)

When a download job has ended well, the status names the id that it has registered.  The registry
has a model with that id, and the id is one that the button of the model's row can carry back to
the daemon: so a click on the row starts the model.
-/
import LlmCtl.DerivedId
import LlmCtl.Registration
import LlmCtl.StartButton

namespace LlmCtl

open EventSystem Api PercentDecode TextTemplate

/-! ## The id -/

section Id

variable {unicode : Char → Bool} {id : List Char}

/-- A document keeps an id in normal form. -/
theorem NormalId.keptInDocument (h : NormalId unicode id) : KeptInDocument id := by
  intro c hc
  constructor
  · rintro rfl
    have hreturn : isAlphanumeric unicode '\r' = false := if_pos (by decide)
    exact h.notMem (by decide) hreturn hc
  · intro hnul
    obtain rfl : Char.ofNat 0 = c := by rw [← hnul, Char.ofNat_toNat]
    have hzero : isAlphanumeric unicode (Char.ofNat 0) = false := if_pos (by decide)
    exact h.notMem (by decide) hzero hc

/-- A path carries an id in normal form. -/
theorem NormalId.reachable (h : NormalId unicode id) : id ∉ unreachableIds := by
  have hdot : '.' ∉ id := h.notMem (by decide) (if_pos (by decide))
  intro hmem
  simp only [unreachableIds, List.mem_cons, List.not_mem_nil, or_false] at hmem
  rcases hmem with rfl | rfl | rfl
  · exact h.nonempty rfl
  · exact hdot List.mem_cons_self
  · exact hdot List.mem_cons_self

end Id

/-! ## The registry -/

/-- What was registered is known. -/
theorem Registry.knows_register (unicode : Char → Bool) (r : Registry) (repo path : String)
    (written : Bool) :
    (r.register unicode repo path written).knows (deriveId unicode path) = true := by
  rw [Registry.register]
  split
  · assumption
  · exact Registry.knows_iff.mpr
      ⟨_, List.mem_append_right _ (List.mem_singleton_self _), rfl⟩

/-- The first model with an id that is known. -/
theorem Registry.find_of_knows {r : Registry} {id : String} (h : r.knows id = true) :
    ∃ x, r.models.find? (fun y => y.id == id) = some x ∧ x.id = id := by
  obtain ⟨y, hy, hid⟩ := Registry.knows_iff.mp h
  have hsome : (r.models.find? fun y => y.id == id).isSome = true :=
    List.find?_isSome.mpr ⟨y, hy, beq_iff_eq.mpr hid⟩
  obtain ⟨x, hx⟩ := Option.isSome_iff_exists.mp hsome
  exact ⟨x, hx, by simpa using List.find?_some hx⟩

/-! ## The click -/

/-- A click on the row of a model, in a browser that shows a status reply in which the model is
not active. -/
structure ClickedRow (env : ApiEnv) (x : Model) (req : Request) where
  host : Js.Host
  browser : Browser
  standard : browser.Standard
  st : WorkerState
  active : Js
  row : List (TemplatePart Char)
  path : List UInt8
  not_active : (Js.json (.str x.id)).strictEq active = false
  drawn : Panel.modelRow host active (modelJson env.printable st x) = .ok row
  clicked : clickPath browser row = some path
  asked : req.IsAction path

/-- **A downloaded model can be started**, in every run of the download manager: when a job has
ended well, the registry has a model with the id that the job names, and a click on its row has
the supervisor called for that model, once, if the request looks the id up in this registry. -/
theorem downloaded_model_starts {hf : Hf} {unicode : Char → Bool} {tr : List JobFact}
    {m : DownloadManager} (h : (observedDownloads hf unicode).Run Anything tr m)
    (hok : m.job.status = .ok) {env : ApiEnv}
    (htext : ∀ enc text, decode enc = utf8 text.toList → env.pathText enc = .ok text) :
    ∃ id x, m.job.registered = some id ∧ x ∈ m.rest.models ∧ x.id = id ∧
      ∀ req, ClickedRow env x req → StartsModel env req id ∧
        ∀ s : AppState, s.download = m → ∀ rest r,
          (app env req).Execution (.access s s :: rest) r ↔ Started env x rest r := by
  obtain ⟨story, path, repo, written, -, -, -, hid, hrest⟩ := (told_of_run h).of_ok hok
  have hknows : m.rest.knows (deriveId unicode path) = true :=
    hrest ▸ Registry.knows_register unicode story.before repo path written
  obtain ⟨x, hfind, hxid⟩ := Registry.find_of_knows hknows
  have hnormal : NormalId unicode x.id.toList := hxid ▸ normalId_deriveId unicode path
  refine ⟨_, x, hid, List.mem_of_find?_eq_some hfind, hxid, fun req hclick => ?_⟩
  have hstarts := startsModel_of_click hclick.standard hclick.not_active hnormal.keptInDocument
    htext hclick.drawn hclick.clicked hclick.asked hnormal.reachable
  refine ⟨hxid ▸ hstarts, fun s hs rest r => (hstarts _ _).trans ?_⟩
  have hfound : s.download.rest.models.find? (fun y => y.id == x.id) = some x := by
    rw [hs, hxid]
    exact hfind
  exact startRun_found_iff hfound

/-- The request for a start of a downloaded model. -/
def downloadedRequest : Request := clickRequest "a-q4".toList (by decide)

/-- A file is downloaded, and its model is started. -/
theorem downloaded_model_starts_one :
    ∃ tr m x, (observedDownloads plainHf asciiOnly).Run Anything tr m ∧
      m.job.registered = some "a-q4" ∧ x ∈ m.rest.models ∧ x.id = "a-q4" ∧
      ∃ req, StartsModel paramEnv req "a-q4" ∧ ∀ s : AppState, s.download = m → ∀ rest r,
        (app paramEnv req).Execution (.access s s :: rest) r ↔ Started paramEnv x rest r := by
  obtain ⟨tr, m, h, hp⟩ := Run.reaches (observedDownloads plainHf asciiOnly) Anything
    (downloadBy 0 "/hub/A-Q4.gguf")
    (fun _ m => decide (m.job.status = .ok ∧ m.job.registered = some "a-q4"))
    (observedDownloads_init _ _) (admits_anything _ _ _) (by decide)
  obtain ⟨hok, hregistered⟩ := of_decide_eq_true hp
  obtain ⟨id, x, hid, hx, hxid, hstarts⟩ := downloaded_model_starts h hok pathText_paramEnv
  obtain rfl := Option.some.inj (hregistered.symm.trans hid)
  obtain ⟨_, hrow⟩ := modelRow_eq Panel.londonHost .undefined paramEnv.printable .new x
  have hkept : KeptInDocument x.id.toList := by rw [hxid]; decide
  have hinactive : (Js.json (.str x.id)).strictEq .undefined = false := rfl
  have hclicked := clickPath_modelRow standard_readRefs hinactive hkept hrow
  refine ⟨tr, m, x, h, hregistered, hx, hxid, downloadedRequest, ?_⟩
  refine hstarts _ ⟨Panel.londonHost, _, standard_readRefs, .new, .undefined, _, _, hinactive,
    hrow, hclicked, rfl, ?_, ?_⟩
  · rw [hxid]
    rfl
  · decide

end LlmCtl
