/-
# The models over restarts (`main.rs`, `download.rs`)

A daemon starts with the models of its configuration, its downloads add models to this list and
to the text of the file, and the next daemon starts with what the text says by then.

The list and the text never part, however many downloads and restarts there are: a restart at any
time finds exactly the models that the daemon had before, and everything else as it was in the
first configuration.  This needs every entry to be written, with a path and a repository that are
plain, and a first text that has no line looking like a new id.  Appended blocks never disturb the
search for later ids.
-/
import LlmCtl.ConfigAppend
import LlmCtl.PersistTwice
import LlmCtl.Registration

namespace LlmCtl

open EventSystem FileConfig Toml Toml.Doc

/-! ## A daemon and its restarts -/

/-- The configuration that the daemon has started with, and its downloads. -/
structure RegistryDaemon where
  cfg : FileConfig
  manager : DownloadManager

/-- `main`: the runtime registry, and `DownloadManager::new`. -/
def RegistryDaemon.start (text : String) (cfg : FileConfig) : RegistryDaemon where
  cfg := cfg
  manager := ⟨.idle, ⟨cfg.models, some text⟩, none, [], 0⟩

inductive RegistryAct where
  /-- The download manager goes on. -/
  | download (a : JobAct HfDownloadReq DownloadEnv)
  /-- The daemon goes down, wherever it is, and a new one loads the file. -/
  | restart

/-- One step.  A daemon that cannot load its configuration does not start. -/
def registryStep (home : Option String) (unicode : Char → Bool) (d : RegistryDaemon) :
    RegistryAct → Option (RegistryDaemon × List ClaimedRecord.Event)
  | .download a =>
    ((downloads d.cfg.hf unicode).step d.manager a).map fun r => ({ d with manager := r.1 }, r.2)
  | .restart =>
    match d.manager.rest.config with
    | some text =>
      match load home text with
      | .ok cfg => some (.start text cfg, [])
      | .error _ => none
    | none => none

/-- The daemon as a system, from a configuration file on. -/
def registries (home : Option String) (unicode : Char → Bool) (text : String) (cfg : FileConfig) :
    EventSystem RegistryDaemon RegistryAct ClaimedRecord.Event where
  init := fun d => d = .start text cfg
  step := registryStep home unicode

/-- The task at this program point registers a new model, and its entry gets into the file as it
is meant: it is written, its texts are plain, and the first text has nothing like its id. -/
def DownloadPc.EntersPlainly (unicode : Char → Bool) (first : String) (r : Registry)
    (written : Bool) : DownloadPc → Prop
  | .register repo path => r.knows (deriveId unicode path) = false →
      written = true ∧ Plain path.toList ∧ Plain repo.toList ∧
        containsText first (modelNeedle (deriveId unicode path)) = false
  | _ => True

instance (unicode : Char → Bool) (first : String) (r : Registry) (written : Bool) :
    ∀ pc : DownloadPc, Decidable (pc.EntersPlainly unicode first r written)
  | .register _ _ => by
    unfold DownloadPc.EntersPlainly
    infer_instance
  | .enter _ | .claim _ _ | .spawn _ | .spawnFailed _ | .child _ | .finish _ _ _ | .resolve _
  | .ended | .refused _ | .dropped => .isTrue trivial

/-- Every new model gets into the file as it is meant. -/
def EntersPlainly (unicode : Char → Bool) (first : String) (_ : List ClaimedRecord.Event)
    (d : RegistryDaemon) : RegistryAct → Prop
  | .download (.go i (.persisted written)) => ∀ c ∈ d.manager.starts[i]?,
      DownloadPc.EntersPlainly unicode first d.manager.rest written (Start.pc c)
  | _ => True

instance (unicode : Char → Bool) (first : String) (tr : List ClaimedRecord.Event)
    (d : RegistryDaemon) : ∀ a, Decidable (EntersPlainly unicode first tr d a)
  | .download (.go i (.persisted written)) => inferInstanceAs (Decidable
      (∀ c ∈ d.manager.starts[i]?,
        DownloadPc.EntersPlainly unicode first d.manager.rest written (Start.pc c)))
  | .download (.go _ (.next _)) | .download (.go _ .spawned) | .download (.go _ (.spawnError _))
  | .download (.go _ (.exited _ _)) | .download (.go _ (.resolved _)) | .download (.call _)
  | .download (.drop _) | .restart => .isTrue trivial

/-! ## The text of the file -/

section Text

variable {home : Option String} {text id path desc : String} {cfg : FileConfig}

/-- What the search looks for has two quotes, a plain text with a closing quote has one. -/
theorem not_infix_quoted {other value : List Char} (h : Plain value) :
    ¬ needleOpen ++ (other ++ ['"']) <:+: value ++ ['"'] := by
  intro hinfix
  have hcount := hinfix.sublist.count_le '"'
  have hopen : needleOpen.count '"' = 1 := by decide
  have hvalue : value.count '"' = 0 :=
    List.count_eq_zero.mpr fun hmem => (isPlain_iff.mp (h _ hmem)).2.1 rfl
  simp only [List.count_append, hopen, hvalue, List.count_singleton_self] at hcount
  omega

/-- **A plain block does not disturb the search for any id.** -/
theorem containsText_block {other : String} (hother : '\n' ∉ other.toList)
    (hid : Plain id.toList) (hpath : Plain path.toList) (hdesc : Plain desc.toList) :
    containsText (text ++ modelBlock id path desc) (modelNeedle other) =
      containsText text (modelNeedle other) := by
  have hhead : Occurrence.NoStart needleOpen (modelsHeader ++ idOpen) :=
    noStart_of_tails (by decide)
  have hmodel : Occurrence.NoStart needleOpen modelOpen := noStart_of_tails (by decide)
  have htail : Occurrence.NoStart needleOpen (autostartLine ++ descriptionOpen) :=
    noStart_of_tails (by decide)
  have hnil : ¬ needleOpen ++ (other.toList ++ ['"']) <:+: [] := by
    intro h
    have hlen := h.length_le
    simp at hlen
  rw [Bool.eq_iff_iff, containsText_iff, containsText_iff, String.toList_append,
    modelBlock_toList, Occurrence.infix_append_cons_iff (newline_notMem_needle hother), modelLines,
    ← List.append_assoc modelsHeader, infix_quoted_iff hother hhead,
    infix_quoted_iff hother hmodel, ← List.append_assoc autostartLine,
    infix_quoted_iff hother htail]
  simp only [not_infix_quoted hid, not_infix_quoted hpath, not_infix_quoted hdesc, hnil, or_false]

/-- A file to which a block has been appended has tables of models. -/
theorem inlineModels_append (hload : load home text = .ok cfg) (hinline : inlineModels text = false)
    (hid : Plain id.toList) (hpath : Plain path.toList) (hdesc : Plain desc.toList) :
    inlineModels (text ++ modelBlock id path desc) = false := by
  obtain ⟨root, cfg₀, hparse, hdec, -, -⟩ := load_eq_ok_iff.mp hload
  obtain ⟨ts, hts, -⟩ | ⟨vs, hvs⟩ := modelTables_or_inline hdec
  · obtain ⟨d, rfl, hrest⟩ := parse_append hparse
    obtain ⟨d', hopened, hcomplete⟩ := complete_modelLines hts hid hpath hdesc
    have htext : parse (text ++ modelBlock id path desc).toList = some d'.root := by
      rw [String.toList_append, modelBlock_toList, hrest, hcomplete]
      rfl
    rw [inlineModels, htext, Option.bind_some, hopened.last]
  · rw [inlineModels, hparse, Option.bind_some, hvs] at hinline
    exact absurd hinline (by simp)

end Text

/-! ## The registry and the file -/

/-- **The list and the text say the same**: the next daemon would start with the models of this
one, and otherwise as the first one did; and the search finds in the text what it found in the
first one. -/
structure RegistryDaemon.InStep (home : Option String) (unicode : Char → Bool) (first : String)
    (cfg : FileConfig) (d : RegistryDaemon) (text : String) : Prop where
  config : d.manager.rest.config = some text
  load : load home text = .ok { cfg with models := d.manager.rest.models }
  tables : inlineModels text = false
  search : ∀ path, containsText text (modelNeedle (deriveId unicode path)) =
    containsText first (modelNeedle (deriveId unicode path))

section Step

variable {home : Option String} {unicode : Char → Bool} {first : String} {cfg : FileConfig}
  {d d' : RegistryDaemon} {text : String} {tr ev : List ClaimedRecord.Event} {a : RegistryAct}

theorem plain_desc {repo : String} (h : Plain repo.toList) : Plain ("hf: " ++ repo).toList := by
  rw [String.toList_append]
  intro c hc
  rcases List.mem_append.mp hc with hc | hc
  · exact (by decide : Plain "hf: ".toList) c hc
  · exact h c hc

/-- A step that leaves the registry alone. -/
theorem RegistryDaemon.InStep.congr (h : d.InStep home unicode first cfg text)
    (hrest : d'.manager.rest = d.manager.rest) : d'.InStep home unicode first cfg text :=
  ⟨hrest ▸ h.config, hrest ▸ h.load, h.tables, h.search⟩

/-- **A new model gets into the list and into the text.** -/
theorem RegistryDaemon.InStep.enter (h : d.InStep home unicode first cfg text) {repo path : String}
    (hnew : d.manager.rest.knows (deriveId unicode path) = false) (hpath : Plain path.toList)
    (hrepo : Plain repo.toList)
    (hfirst : containsText first (modelNeedle (deriveId unicode path)) = false)
    (hrest : d'.manager.rest = d.manager.rest.register unicode repo path true) :
    ∃ text', d'.InStep home unicode first cfg text' := by
  have hid := deriveId_plain unicode path
  have hdesc := plain_desc hrepo
  have hmissing : containsText text (modelNeedle (deriveId unicode path)) = false :=
    (h.search path).trans hfirst
  have happend : persistModel text (deriveId unicode path) path ("hf: " ++ repo) =
      text ++ modelBlock (deriveId unicode path) path ("hf: " ++ repo) := by
    rw [persistModel, hmissing]
    rfl
  have hadd : d'.manager.rest = d.manager.rest.add (deriveId unicode path) path ("hf: " ++ repo)
      true := by
    rw [hrest, Registry.register, hnew]
    rfl
  refine ⟨_, ?_, ?_, inlineModels_append h.load h.tables hid hpath hdesc, fun other => ?_⟩
  · rw [hadd, Registry.add, if_pos rfl, h.config, Option.map_some, happend]
  · rw [load_append h.load h.tables hid hpath hdesc, hadd]
    rfl
  · rw [containsText_block (newline_notMem_of_plain (deriveId_plain unicode other)) hid hpath hdesc]
    exact h.search other

/-- **Every step that enters models plainly keeps the list and the text in step**, and loses no
model. -/
theorem RegistryDaemon.InStep.step (h : d.InStep home unicode first cfg text)
    (hok : EntersPlainly unicode first tr d a)
    (hs : registryStep home unicode d a = some (d', ev)) :
    (∃ text', d'.InStep home unicode first cfg text') ∧
      d.manager.rest.models <+: d'.manager.rest.models := by
  cases a with
  | restart =>
    simp only [registryStep, h.config, h.load] at hs
    obtain ⟨rfl, -⟩ := Prod.mk.inj (Option.some.inj hs)
    exact ⟨⟨text, rfl, h.load, h.tables, h.search⟩, List.prefix_rfl⟩
  | download b =>
    obtain ⟨⟨m, evs⟩, hm, heq⟩ := Option.map_eq_some_iff.mp hs
    obtain ⟨rfl, -⟩ := Prod.mk.inj heq
    cases restStep_of_step hm with
    | same hrest _ =>
      have hsame : m.rest = d.manager.rest := hrest
      exact ⟨⟨text, h.congr hsame⟩, hsame ▸ List.prefix_rfl⟩
    | registers i repo path claim written hb hc hrest _ =>
      subst hb
      have hrest' : m.rest = d.manager.rest.register unicode repo path written := hrest
      cases hknows : d.manager.rest.knows (deriveId unicode path) with
      | true =>
        have hsame : m.rest = d.manager.rest := by
          rw [hrest', Registry.register, if_pos hknows]
        exact ⟨⟨text, h.congr hsame⟩, hsame ▸ List.prefix_rfl⟩
      | false =>
        obtain ⟨rfl, hpath, hrepo, hfirst⟩ := hok _ hc hknows
        refine ⟨h.enter hknows hpath hrepo hfirst hrest', ?_⟩
        show d.manager.rest.models <+: m.rest.models
        rw [hrest', Registry.register, hknows]
        exact List.prefix_append _ _

end Step

/-! ## Every run -/

section Runs

variable {home : Option String} {unicode : Char → Bool} {text : String} {cfg : FileConfig}
  {d d' : RegistryDaemon} {tr ev : List ClaimedRecord.Event}

theorem inStep_of_run (hload : load home text = .ok cfg) (htables : inlineModels text = false)
    (h : (registries home unicode text cfg).Run (EntersPlainly unicode text) tr d) :
    ∃ text', d.InStep home unicode text cfg text' := by
  refine h.invariant (I := fun _ d => ∃ text', d.InStep home unicode text cfg text') ?_ ?_
  · rintro d rfl
    exact ⟨text, rfl, hload, htables, fun _ => rfl⟩
  · rintro tr d a d' ev - hok hs ⟨text', hstep⟩
    exact (hstep.step hok hs).1

/-- Nothing that goes on loses a model. -/
theorem models_prefix_of_exec {text' : String} (h : d.InStep home unicode text cfg text')
    {as : List RegistryAct}
    (hok : (registries home unicode text cfg).Admits (EntersPlainly unicode text) tr d as)
    (hx : (registries home unicode text cfg).exec d as = some (d', ev)) :
    d.manager.rest.models <+: d'.manager.rest.models := by
  induction as generalizing tr ev d text' with
  | nil =>
    obtain ⟨rfl, -⟩ := Prod.mk.inj (Option.some.inj hx)
    exact List.prefix_rfl
  | cons a as ih =>
    obtain ⟨hoka, hrest⟩ := hok
    simp only [EventSystem.exec] at hx
    split at hx
    · exact absurd hx (by simp)
    · next d₁ ev₁ hs =>
      rw [hs] at hrest
      obtain ⟨⟨text₁, hstep⟩, hgrows⟩ := h.step hoka hs
      split at hx
      · exact absurd hx (by simp)
      · next d₂ ev₂ hx' =>
        obtain ⟨rfl, -⟩ := Prod.mk.inj (Option.some.inj hx)
        exact hgrows.trans (ih hstep hrest hx')

end Runs

/-- **The models survive every restart**: after any downloads and restarts, the file loads, with
the models of the running daemon and everything else as at first; and no model is ever lost. -/
theorem models_survive_restarts {home : Option String} {unicode : Char → Bool} {text : String}
    {cfg : FileConfig} (hload : load home text = .ok cfg) (htables : inlineModels text = false)
    {tr ev : List ClaimedRecord.Event} {d d' : RegistryDaemon} {as : List RegistryAct}
    (h : (registries home unicode text cfg).Run (EntersPlainly unicode text) tr d)
    (hok : (registries home unicode text cfg).Admits (EntersPlainly unicode text) tr d as)
    (hx : (registries home unicode text cfg).exec d as = some (d', ev)) :
    (∃ text', d'.manager.rest.config = some text' ∧
        load home text' = .ok { cfg with models := d'.manager.rest.models }) ∧
      d.manager.rest.models <+: d'.manager.rest.models := by
  obtain ⟨text₁, hstep₁⟩ := inStep_of_run hload htables h
  obtain ⟨text₂, hstep₂⟩ := inStep_of_run hload htables (h.exec hok hx)
  exact ⟨⟨text₂, hstep₂.config, hstep₂.load⟩, models_prefix_of_exec hstep₁ hok hx⟩

/-- A restart can always follow. -/
theorem RegistryDaemon.InStep.restart {home : Option String} {unicode : Char → Bool}
    {first text : String} {cfg cfg₀ : FileConfig} {d : RegistryDaemon}
    (h : d.InStep home unicode first cfg text) :
    (registries home unicode first cfg₀).exec d [.restart] =
      some (.start text { cfg with models := d.manager.rest.models }, []) := by
  simp only [EventSystem.exec, registries, registryStep, h.config, h.load, List.append_nil]

/-- A daemon with two more models, which is restarted. -/
theorem models_survive_restarts_two :
    ∃ tr d text,
      (registries (some "/root") asciiOnly (String.join smallLines) smallConfig).Run
        (EntersPlainly asciiOnly (String.join smallLines)) tr d ∧
      d.manager.rest.models.map Model.id = ["a", "b"] ∧
      load (some "/root") text = .ok { smallConfig with models := d.manager.rest.models } := by
  obtain ⟨tr, d, h, hp⟩ := Run.reaches
    (registries (some "/root") asciiOnly (String.join smallLines) smallConfig)
    (EntersPlainly asciiOnly (String.join smallLines))
    ((downloadBy 0 "/a.gguf" ++ downloadBy 1 "/b.gguf").map .download)
    (fun _ d => decide (d.manager.rest.models.map Model.id = ["a", "b"]))
    rfl (by decide +kernel) (by decide +kernel)
  have hok : ∀ a ∈ [RegistryAct.restart], ∀ tr d,
      EntersPlainly asciiOnly (String.join smallLines) tr d a := by
    intro a ha tr d
    rw [List.mem_singleton.mp ha]
    trivial
  obtain ⟨_, hstep⟩ := inStep_of_run load_smallLines inlineModels_smallLines h
  obtain ⟨⟨text, -, hload⟩, -⟩ := models_survive_restarts load_smallLines
    inlineModels_smallLines h (admits_of_forall hok tr d) hstep.restart
  exact ⟨tr, d, text, h, of_decide_eq_true hp, hload⟩

end LlmCtl
