/-
# A model appended to the configuration

`persist_model` appends a model as text.  Read again, the file has that model after the others,
exactly if the name of its file and that of its repository hold nothing that TOML would take for
something else, the models are not written as an inline array, and no model of that id has
escaped the search through the text.
-/
import LlmCtl.ConfigFile
import LlmCtl.ListTable
import LlmCtl.PersistModel
import LlmCtl.SessionId
import LlmCtl.TomlString

namespace LlmCtl

open Toml Toml.Doc

/-! ## The text of a model -/

/-- A line of `modelBlock` up to the quote that opens its value. -/
def idOpen : List Char := "id          = \"".toList

def modelOpen : List Char := "model       = \"".toList

def descriptionOpen : List Char := "description = \"".toList

def autostartLine : List Char := "autostart   = false\n".toList

def modelsHeader : List Char := "[[models]]\n".toList

/-- The end of a line with a string. -/
def closeLine : List Char := ['"', '\n']

/-- The lines of a model. -/
def modelLines (id path desc : List Char) : List Char :=
  modelsHeader ++ (idOpen ++ (id ++ (closeLine ++ (modelOpen ++ (path ++ (closeLine ++
    (autostartLine ++ (descriptionOpen ++ (desc ++ (closeLine ++ []))))))))))

theorem modelBlock_toList (id path desc : String) :
    (modelBlock id path desc).toList
      = '\n' :: modelLines id.toList path.toList desc.toList := by
  have hhead : "\n[[models]]\nid          = \"".toList = '\n' :: (modelsHeader ++ idOpen) := by
    decide
  have hmodel : "\"\nmodel       = \"".toList = closeLine ++ modelOpen := by decide
  have hmiddle : "\"\nautostart   = false\ndescription = \"".toList
      = closeLine ++ (autostartLine ++ descriptionOpen) := by decide
  have hclose : "\"\n".toList = closeLine := by decide
  simp only [modelBlock, modelLines, String.join, List.foldl_cons, List.foldl_nil,
    String.toList_append, String.toList_empty, hhead, hmodel, hmiddle, hclose, List.nil_append,
    List.append_nil, List.append_assoc, List.cons_append]

section Lines

variable (d : Doc) (rest : List Char)

theorem complete_header : complete ⟨d, .lineStart⟩ (modelsHeader ++ rest)
    = (d.element ["models".toList]).bind fun d' => complete ⟨d', .lineStart⟩ rest := by
  have hkey : read ⟨d, .lineStart⟩ "[[models]".toList
      = some ⟨d, .elementClose ["models".toList]⟩ := rfl
  have hsplit : modelsHeader ++ rest = "[[models]".toList ++ ([']', '\n'] ++ rest) := by
    rw [← List.append_assoc]
    rfl
  rw [hsplit, complete_append hkey, complete, read_append]
  have hend : read ⟨d, .elementClose ["models".toList]⟩ [']', '\n']
      = (d.element ["models".toList]).map fun d' => ⟨d', .lineStart⟩ := by
    have hclose : step ⟨d, .elementClose ["models".toList]⟩ ']'
        = (d.element ["models".toList]).map fun d' => ⟨d', .lineEnd⟩ := rfl
    rw [read_cons, hclose]
    cases d.element ["models".toList] <;> rfl
  rw [hend]
  cases d.element ["models".toList] <;> rfl

theorem complete_autostart : complete ⟨d, .lineStart⟩ (autostartLine ++ rest)
    = (d.keyval ["autostart".toList] (.bool false)).bind
        fun d' => complete ⟨d', .lineStart⟩ rest := by
  have hvalue : read ⟨d, .lineStart⟩ "autostart   = false".toList
      = some ⟨d, .scalar ⟨["autostart".toList], []⟩ "false".toList.reverse⟩ := rfl
  have hsplit : autostartLine ++ rest = "autostart   = false".toList ++ (['\n'] ++ rest) := by
    rw [← List.append_assoc]
    rfl
  have hend : read ⟨d, .scalar ⟨["autostart".toList], []⟩ "false".toList.reverse⟩ ['\n']
      = (d.keyval ["autostart".toList] (.bool false)).map fun d' => ⟨d', .lineStart⟩ := by
    show (endBefore d ⟨["autostart".toList], []⟩ (some (.bool false)) '\n').bind some = _
    rw [Option.bind_fun_some]
    exact endValue_newline d ["autostart".toList] (.bool false)
  rw [hsplit, complete_append hvalue, complete, read_append, hend]
  cases d.keyval ["autostart".toList] (.bool false) <;> rfl

theorem read_idOpen :
    read ⟨d, .lineStart⟩ idOpen = some ⟨d, .quote ⟨["id".toList], []⟩ '"' false⟩ := rfl

theorem read_modelOpen :
    read ⟨d, .lineStart⟩ modelOpen = some ⟨d, .quote ⟨["model".toList], []⟩ '"' false⟩ := rfl

theorem read_descriptionOpen :
    read ⟨d, .lineStart⟩ descriptionOpen
      = some ⟨d, .quote ⟨["description".toList], []⟩ '"' false⟩ := rfl

end Lines

/-! ## A line of the open table -/

section Opened

variable {k key : List Char} {root es : Entries} {ts : List Value} {d : Doc}
  {opening cs rest : List Char}

/-- A plain text becomes the value of the key. -/
theorem complete_plain_line (h : Opened k root ts es d) (hnew : find? es key = none)
    (hopen : read ⟨d, .lineStart⟩ opening = some ⟨d, .quote ⟨[key], []⟩ '"' false⟩)
    (hcs : Plain cs) :
    ∃ d', Opened k root ts (es ++ [(key, .str cs)]) d' ∧
      complete ⟨d, .lineStart⟩ (opening ++ (cs ++ (closeLine ++ rest)))
        = complete ⟨d', .lineStart⟩ rest := by
  obtain ⟨d', hd, hopened⟩ := h.keyval hnew (.str cs)
  refine ⟨d', hopened, ?_⟩
  rw [complete_append hopen, closeLine, complete_plain_value d [key] hcs, hd, Option.bind_some]

/-- Any other text becomes some value of the key, which stands there to the end. -/
theorem kept_of_line (h : Opened k root ts es d) (hnew : find? es key = none)
    (hopen : read ⟨d, .lineStart⟩ opening = some ⟨d, .quote ⟨[key], []⟩ '"' false⟩)
    {d' : Doc}
    (hd : complete ⟨d, .lineStart⟩ (opening ++ (cs ++ (closeLine ++ rest))) = some d') :
    ∃ raw v rest', cs ++ '"' :: '\n' :: (rest ++ ['\n']) = raw ++ '"' :: rest' ∧
      Encodes raw v ∧
      get [.key k, .index ts.length, .key key] (.table .header d'.root) = some (.str v) := by
  rw [complete_append hopen] at hd
  obtain ⟨raw, v, rest', d₁, htext, hv, hd₁, hkeeps⟩ := closed_of_finish hd
  obtain ⟨d₂, hd₂, hopened⟩ := h.keyval hnew (.str v)
  rw [hd₁] at hd₂
  cases hd₂
  refine ⟨raw, v, rest', ?_, hv, ?_⟩
  · rw [← htext, closeLine]
    simp only [List.append_assoc, List.cons_append, List.nil_append]
  · apply keeps_table .header .header hkeeps
    show (find? d₁.root k).bind _ = _
    rw [hopened.last, Option.bind_some]
    show ((ts ++ [.table .header (es ++ [(key, .str v)])])[ts.length]?).bind _ = _
    rw [List.getElem?_concat_length, Option.bind_some]
    show (find? (es ++ [(key, .str v)]) key).bind _ = _
    rw [find?_append_single, hnew, if_pos rfl]
    rfl

end Opened

/-! ## The models of a document -/

/-- The models are written as an inline array, which nothing can be appended to. -/
def inlineModels (text : String) : Bool :=
  match (parse text.toList).bind fun root => find? root "models".toList with
  | some (.array _) => true
  | _ => false

/-- The tables that a model is appended to. -/
def ModelTables (root : Entries) (ts : List Value) : Prop :=
  find? root "models".toList = none ∧ ts = [] ∨ find? root "models".toList = some (.tables ts)

namespace FileConfig

variable {root : Entries} {cfg : FileConfig}

theorem models_of_decode {kind : TableKind} (h : decode (.table kind root) = some cfg) :
    optional (asVec Model.decode) [] (.table kind root) "models" 6 = some cfg.models :=
  (decode_eq_some_iff.mp h).2.2.2.2.2.2

/-- The models of an accepted document are none, tables, or an inline array. -/
theorem modelTables_or_inline {kind : TableKind} (h : decode (.table kind root) = some cfg) :
    (∃ ts, ModelTables root ts ∧ ts.mapM Model.decode = some cfg.models) ∨
      ∃ vs, find? root "models".toList = some (.array vs) := by
  have hmodels := models_of_decode h
  simp only [optional, fieldOf] at hmodels
  cases hfind : find? root "models".toList with
  | none =>
    rw [hfind] at hmodels
    refine Or.inl ⟨[], Or.inl ⟨hfind, rfl⟩, ?_⟩
    rw [← hmodels]
    rfl
  | some v =>
    rw [hfind] at hmodels
    cases v with
    | tables ts => exact Or.inl ⟨ts, Or.inr hfind, hmodels⟩
    | array vs => exact Or.inr ⟨vs, rfl⟩
    | str | int | bool | float | time | table => cases hmodels

/-- A text that stands in the tables of the models is read from there. -/
theorem model_of_get {kind : TableKind} (h : decode (.table kind root) = some cfg) {n : ℕ}
    {key : String} {v : List Char}
    (hget : get [.key "models".toList, .index n, .key key.toList] (.table kind root)
      = some (.str v)) :
    ∃ t m, cfg.models[n]? = some m ∧ Model.decode t = some m ∧
      ∀ i, required asString t key i = some (String.ofList v) := by
  obtain ⟨w, hw, hget⟩ := Option.bind_eq_some_iff.mp hget
  cases w with
  | tables ts =>
    obtain ⟨t, ht, hget⟩ := Option.bind_eq_some_iff.mp hget
    have hmodels := models_of_decode h
    simp only [optional, fieldOf, hw, asVec] at hmodels
    have hn := (ListTable.of_mapM hmodels).2 n
    rw [ht, Option.bind_some] at hn
    have hlt : n < cfg.models.length := by
      rw [(ListTable.of_mapM hmodels).1]
      exact (List.getElem?_eq_some_iff.mp ht).1
    obtain ⟨m, hm⟩ : ∃ m, cfg.models[n]? = some m := ⟨_, List.getElem?_eq_getElem hlt⟩
    refine ⟨t, m, hm, by rw [← hn, hm], fun i => ?_⟩
    cases t with
    | table kind' es =>
      obtain ⟨x, hx, hget⟩ := Option.bind_eq_some_iff.mp hget
      cases hget
      rw [required, fieldOf, hx]
      rfl
    | _ => cases hget
  | _ => cases hget

/-! ## The appended model -/

/-- The entries of an appended model. -/
def entriesOf (id path desc : String) : Entries :=
  [("id".toList, .str id.toList), ("model".toList, .str path.toList),
    ("autostart".toList, .bool false), ("description".toList, .str desc.toList)]

theorem decode_entriesOf (id path desc : String) :
    Model.decode (.table .header (entriesOf id path desc)) = some ⟨id, path, false, desc⟩ := by
  have hid : String.ofList id.toList = id := String.ofList_toList
  have hpath : String.ofList path.toList = path := String.ofList_toList
  have hdesc : String.ofList desc.toList = desc := String.ofList_toList
  have hdec : Model.decode (.table .header (entriesOf id path desc))
      = some ⟨String.ofList id.toList, String.ofList path.toList, false,
          String.ofList desc.toList⟩ := rfl
  rw [hdec, hid, hpath, hdesc]

/-- A document with one more table of models decodes to one more model. -/
theorem decode_opened {kind : TableKind} {ts : List Value} {id path desc : String} {d : Doc}
    (h : decode (.table kind root) = some cfg) (hts : ModelTables root ts)
    (hd : Opened "models".toList root ts (entriesOf id path desc) d) :
    decode (.table kind d.root) = some (cfg.addModel ⟨id, path, false, desc⟩) := by
  obtain ⟨h₀, h₁, h₂, h₃, h₄, h₅, h₆⟩ := decode_eq_some_iff.mp h
  have hother : ∀ name i, name ≠ "models" →
      fieldOf (.table kind d.root) name i = fieldOf (.table kind root) name i := by
    intro name i hne
    apply hd.others
    intro heq
    exact hne (String.toList_inj.mp heq)
  have hmodels : ts.mapM Model.decode = some cfg.models := by
    rcases hts with ⟨hnone, rfl⟩ | htables
    · simp only [optional, fieldOf, hnone] at h₆
      rw [← Option.some.inj h₆]
      rfl
    · simp only [optional, fieldOf, htables] at h₆
      exact h₆
  refine decode_eq_some_iff.mpr ⟨?_, ?_, ?_, ?_, ?_, ?_, ?_⟩
  · rw [required, hother "listen" 0 (by decide)]
    exact h₀
  · rw [required, hother "llama" 1 (by decide)]
    exact h₁
  · rw [required, hother "worker" 2 (by decide)]
    exact h₂
  · rw [required, hother "hf" 3 (by decide)]
    exact h₃
  · rw [required, hother "proxmox" 4 (by decide)]
    exact h₄
  · rw [required, hother "db" 5 (by decide)]
    exact h₅
  · simp only [optional, fieldOf, hd.last, asVec]
    rw [List.mapM_append, hmodels, List.mapM_cons, decode_entriesOf]
    rfl

section Lines

variable {d : Doc} {ts : List Value} {id path desc rest : List Char}

/-- The entries of an appended model up to its id, and up to its description. -/
def idEntries (id : List Char) : Entries := [("id".toList, .str id)]

def pathEntries (id path : List Char) : Entries :=
  [("id".toList, .str id), ("model".toList, .str path), ("autostart".toList, .bool false)]

theorem complete_id (hts : ModelTables d.root ts) (hid : Plain id) :
    ∃ d', Opened "models".toList d.root ts (idEntries id) d' ∧
      complete ⟨d, .lineStart⟩ (modelsHeader ++ (idOpen ++ (id ++ (closeLine ++ rest))))
        = complete ⟨d', .lineStart⟩ rest := by
  obtain ⟨d₁, hd₁, h₁⟩ : ∃ d₁, d.element ["models".toList] = some d₁ ∧
      Opened "models".toList d.root ts [] d₁ := by
    rcases hts with ⟨hnone, rfl⟩ | htables
    · exact element_of_none hnone
    · exact element_of_tables htables
  obtain ⟨d', h', hline⟩ := complete_plain_line h₁ rfl (read_idOpen d₁) hid
  refine ⟨d', h', ?_⟩
  rw [complete_header, hd₁, Option.bind_some, hline]

theorem complete_path {root : Entries} (h : Opened "models".toList root ts (idEntries id) d)
    (hpath : Plain path) :
    ∃ d', Opened "models".toList root ts (pathEntries id path) d' ∧
      complete ⟨d, .lineStart⟩ (modelOpen ++ (path ++ (closeLine ++ (autostartLine ++ rest))))
        = complete ⟨d', .lineStart⟩ rest := by
  obtain ⟨d₁, h₁, hline⟩ := complete_plain_line h rfl (read_modelOpen d) hpath
  have hnew : find? (idEntries id ++ [("model".toList, .str path)]) "autostart".toList = none :=
    rfl
  obtain ⟨d', hd', h'⟩ := h₁.keyval hnew (.bool false)
  refine ⟨d', h', ?_⟩
  rw [hline, complete_autostart, hd', Option.bind_some]

end Lines

/-- **A plain model is appended.** -/
theorem complete_modelLines {d : Doc} {ts : List Value} {id path desc : String}
    (hts : ModelTables d.root ts) (hid : Plain id.toList) (hpath : Plain path.toList)
    (hdesc : Plain desc.toList) :
    ∃ d', Opened "models".toList d.root ts (entriesOf id path desc) d' ∧
      complete ⟨d, .lineStart⟩ (modelLines id.toList path.toList desc.toList) = some d' := by
  obtain ⟨d₁, h₁, hidline⟩ := complete_id hts hid
  obtain ⟨d₂, h₂, hpathline⟩ := complete_path h₁ hpath
  obtain ⟨d', h', hdescline⟩ := complete_plain_line h₂ rfl (read_descriptionOpen d₂) hdesc
  refine ⟨d', h', ?_⟩
  rw [modelLines, hidline, hpathline, hdescline]
  rfl

/-- What a decoded model says of its table. -/
theorem required_of_decode {t : Value} {m : Model} (h : Model.decode t = some m) :
    required asString t "model" 1 = some m.model ∧
      optional asString "" t "description" 3 = some m.description := by
  simp only [Model.decode, Option.bind_eq_bind, Option.bind_eq_some_iff, Option.pure_def,
    Option.some.injEq] at h
  obtain ⟨_, -, _, hmodel, _, -, _, hdesc, rfl⟩ := h
  exact ⟨hmodel, hdesc⟩

theorem optional_of_required {α : Type} {f : Value → Option α} {dflt x : α} {v : Value}
    {name : String} {i : ℕ} (h : required f v name i = some x) :
    optional f dflt v name i = some x := by
  obtain ⟨w, hw, hx⟩ := Option.bind_eq_some_iff.mp h
  rw [optional, hw]
  exact hx

/-- A quote further on. -/
theorem prefix_of_ne {a : Char} {t tail : List Char} (h : t ++ ['"'] <+: a :: tail)
    (ha : a ≠ '"') : ∃ t', t = a :: t' ∧ t' ++ ['"'] <+: tail := by
  cases t with
  | nil => exact absurd (List.cons_prefix_cons.mp h).1 (Ne.symm ha)
  | cons b t =>
    obtain ⟨rfl, htail⟩ := List.cons_prefix_cons.mp h
    exact ⟨t, rfl, htail⟩

/-- The line that follows the path has an `o` before the next quote. -/
theorem o_mem_of_prefix {t tail : List Char}
    (h : t ++ ['"'] <+: 'a' :: 'u' :: 't' :: 'o' :: tail) : 'o' ∈ t := by
  obtain ⟨t₁, rfl, h₁⟩ := prefix_of_ne h (by decide)
  obtain ⟨t₂, rfl, h₂⟩ := prefix_of_ne h₁ (by decide)
  obtain ⟨t₃, rfl, h₃⟩ := prefix_of_ne h₂ (by decide)
  obtain ⟨t₄, rfl, -⟩ := prefix_of_ne h₃ (by decide)
  simp

/-- **Whatever is appended is a model more**, and it is the one that was meant only if its path
and its description are plain. -/
theorem appended_of_decode {kind : TableKind} {d d' : Doc} {ts : List Value}
    {id path desc : String} (hts : ModelTables d.root ts) (hid : Plain id.toList)
    (h : complete ⟨d, .lineStart⟩ (modelLines id.toList path.toList desc.toList) = some d')
    (hdec : decode (.table kind d'.root) = some cfg) :
    ∃ m, cfg.models[ts.length]? = some m ∧
      (m.model = path → m.description = desc → Plain path.toList ∧ Plain desc.toList) := by
  obtain ⟨d₁, h₁, hidline⟩ := complete_id hts hid
  rw [modelLines, hidline] at h
  obtain ⟨raw, v, rest, htext, henc, hget⟩ := kept_of_line h₁ rfl (read_modelOpen d₁) h
  obtain ⟨t, m, hm, hmdec, hreq⟩ := model_of_get hdec hget
  refine ⟨m, hm, fun hmodel hdescr => ?_⟩
  have hpath : Plain path.toList := by
    have hv : String.ofList v = path := by
      rw [← hmodel]
      exact Option.some.inj ((hreq 1).symm.trans (required_of_decode hmdec).1)
    rw [← hv, String.toList_ofList] at htext ⊢
    exact plain_of_encodes henc htext fun t ht => o_mem_of_prefix ht
  refine ⟨hpath, ?_⟩
  -- the path is read as it is, and the description comes next
  obtain ⟨d₂, h₂, hpathline⟩ := complete_path h₁ hpath
  rw [hpathline] at h
  obtain ⟨raw', v', rest', htext', henc', hget'⟩ :=
    kept_of_line h₂ rfl (read_descriptionOpen d₂) h
  obtain ⟨t', m', hm', hmdec', hreq'⟩ := model_of_get hdec hget'
  have hsame : m' = m := Option.some.inj (hm'.symm.trans hm)
  have hv' : String.ofList v' = desc := by
    rw [← hdescr, ← hsame]
    exact Option.some.inj
      ((optional_of_required (hreq' 3)).symm.trans (required_of_decode hmdec').2)
  rw [← hv', String.toList_ofList] at htext' ⊢
  refine plain_of_encodes henc' htext' fun t ht => ?_
  -- no quote follows the description
  obtain ⟨t₁, rfl, hnil⟩ := prefix_of_ne ht (by decide)
  exact absurd (List.prefix_nil.mp hnil) (by simp)

end FileConfig

/-! ## The id -/

theorem isPlain_of_isAlphanumeric {unicode : Char → Bool} {c : Char}
    (h : isAlphanumeric unicode c = true) : isPlain c = true := by
  apply isPlain_of_toNat
  unfold isAlphanumeric at h
  split at h
  · have hval : c.val.toNat = c.toNat := rfl
    rw [isAlphanum_iff] at h
    simp only [Char.le_def, UInt32.le_iff_toNat_le, Char.reduceVal, UInt32.reduceToNat,
      hval] at h
    omega
  · omega

theorem slug_plain (unicode : Char → Bool) (dash : Bool) (cs : List Char) :
    Plain (slug unicode dash cs) := by
  induction cs generalizing dash with
  | nil => exact fun c hc => absurd hc List.not_mem_nil
  | cons c cs ih =>
    rw [slug]
    split
    · next hc =>
      intro x hx
      rcases List.mem_cons.mp hx with rfl | hx
      · exact isPlain_toLower (isPlain_of_isAlphanumeric hc)
      · exact ih false x hx
    · split
      · exact ih true
      · intro x hx
        rcases List.mem_cons.mp hx with rfl | hx
        · decide
        · exact ih true x hx

theorem mem_of_mem_trimDashes {c : Char} {cs : List Char} (h : c ∈ trimDashes cs) : c ∈ cs := by
  rw [trimDashes, List.mem_reverse] at h
  exact (List.dropWhile_sublist _).mem (List.mem_reverse.mp ((List.dropWhile_sublist _).mem h))

/-- **An id is plain.** -/
theorem deriveId_plain (unicode : Char → Bool) (path : String) :
    Plain (deriveId unicode path).toList := by
  simp only [deriveId]
  split
  · simp only [String.reduceToList]
    decide
  · rw [String.toList_ofList]
    intro c hc
    exact slug_plain unicode false _ c (mem_of_mem_trimDashes hc)

/-! ## The configuration after a download -/

namespace FileConfig

/-- The configuration with a model registered. -/
def register (cfg : FileConfig) (m : Model) : FileConfig :=
  if cfg.hasModel m.id then cfg else cfg.addModel m

theorem addModel_ne (cfg : FileConfig) (m : Model) : cfg.addModel m ≠ cfg := by
  intro h
  have hlen : (cfg.models ++ [m]).length = cfg.models.length :=
    congrArg (fun c => c.models.length) h
  rw [List.length_append, List.length_singleton] at hlen
  omega

theorem register_eq_self_iff {cfg : FileConfig} {m : Model} :
    cfg.register m = cfg ↔ cfg.hasModel m.id = true := by
  rw [register]
  split
  · next h => exact ⟨fun _ => h, fun _ => rfl⟩
  · next h => exact ⟨fun heq => absurd heq (addModel_ne cfg m), fun h' => absurd h' h⟩

/-- **A plain model that is appended is loaded.** -/
theorem load_append {home : Option String} {text id path desc : String} {cfg : FileConfig}
    (hload : load home text = .ok cfg) (hinline : inlineModels text = false)
    (hid : Plain id.toList) (hpath : Plain path.toList) (hdesc : Plain desc.toList) :
    load home (text ++ modelBlock id path desc) = .ok (cfg.addModel ⟨id, path, false, desc⟩) := by
  obtain ⟨root, cfg₀, hparse, hdec, hapi, rfl⟩ := load_eq_ok_iff.mp hload
  obtain ⟨ts, hts, -⟩ | ⟨vs, hvs⟩ := modelTables_or_inline hdec
  · obtain ⟨d, rfl, hrest⟩ := parse_append hparse
    obtain ⟨d', hopened, hcomplete⟩ := complete_modelLines hts hid hpath hdesc
    refine load_eq_ok_iff.mpr ⟨d'.root, cfg₀.addModel ⟨id, path, false, desc⟩, ?_, ?_, hapi, rfl⟩
    · rw [String.toList_append, modelBlock_toList, hrest, hcomplete]
      rfl
    · exact decode_opened hdec hts hopened
  · rw [inlineModels, hparse, Option.bind_some, hvs] at hinline
    cases hinline

/-- **Nothing else is**: whatever is appended is a model more, or the file is refused. -/
theorem of_load_append {home : Option String} {text id path desc : String}
    {cfg cfg' : FileConfig} (hload : load home text = .ok cfg) (hid : Plain id.toList)
    (hload' : load home (text ++ modelBlock id path desc) = .ok cfg') :
    inlineModels text = false ∧ ∃ m, cfg'.models[cfg.models.length]? = some m ∧
      (m.model = path → m.description = desc → Plain path.toList ∧ Plain desc.toList) := by
  obtain ⟨root, cfg₀, hparse, hdec, -, rfl⟩ := load_eq_ok_iff.mp hload
  obtain ⟨root', cfg₁, hparse', hdec', -, rfl⟩ := load_eq_ok_iff.mp hload'
  obtain ⟨d, rfl, hrest⟩ := parse_append hparse
  rw [String.toList_append, modelBlock_toList, hrest] at hparse'
  obtain ⟨d', hcomplete, rfl⟩ := Option.map_eq_some_iff.mp hparse'
  obtain ⟨ts, hts, hmodels⟩ | ⟨vs, hvs⟩ := modelTables_or_inline hdec
  · constructor
    · rw [inlineModels, hparse, Option.bind_some]
      rcases hts with ⟨hnone, -⟩ | htables
      · rw [hnone]
      · rw [htables]
    · have hlen : (cfg₀.expand home).models.length = ts.length :=
        (ListTable.of_mapM hmodels).1
      obtain ⟨m, hm, hplain⟩ := appended_of_decode hts hid hcomplete hdec'
      exact ⟨m, by rw [hlen]; exact hm, hplain⟩
  · have hnone : d.element ["models".toList] = none :=
      element_of_other hvs fun ts h => by cases h
    rw [modelLines, complete_header, hnone] at hcomplete
    cases hcomplete

end FileConfig

open FileConfig

/-- **A registered model survives a restart** exactly if the search through the text is right
about its id, and, when the model is appended, its path and its repository are plain and the
models are no inline array. -/
theorem persistModel_round_trips_iff (unicode : Char → Bool) {home : Option String}
    {text : String} {cfg : FileConfig} (hload : load home text = .ok cfg) (path repo : String) :
    load home (persistModel text (deriveId unicode path) path ("hf: " ++ repo))
        = .ok (cfg.register ⟨deriveId unicode path, path, false, "hf: " ++ repo⟩) ↔
      if containsText text (modelNeedle (deriveId unicode path)) then
        cfg.hasModel (deriveId unicode path) = true
      else
        cfg.hasModel (deriveId unicode path) = false ∧ Plain path.toList ∧
          Plain repo.toList ∧ inlineModels text = false := by
  have hid := deriveId_plain unicode path
  generalize deriveId unicode path = id at hid
  have hopen : Plain "hf: ".toList := by
    simp only [String.reduceToList]
    decide
  have hdesc : Plain ("hf: " ++ repo).toList ↔ Plain repo.toList := by
    rw [String.toList_append]
    constructor
    · intro h c hc
      exact h c (List.mem_append_right _ hc)
    · intro h c hc
      rcases List.mem_append.mp hc with hc | hc
      · exact hopen c hc
      · exact h c hc
  unfold persistModel
  split
  · rw [hload, Except.ok.injEq, eq_comm]
    exact register_eq_self_iff
  · constructor
    · intro h
      obtain ⟨hinline, m, hm, hplain⟩ := of_load_append hload hid h
      by_cases hhas : cfg.hasModel id = true
      · rw [register_eq_self_iff.mpr hhas, List.getElem?_eq_none (Nat.le_refl _)] at hm
        cases hm
      · have hhas' : cfg.hasModel id = false := by simpa using hhas
        rw [register, if_neg hhas, addModel, List.getElem?_concat_length] at hm
        cases hm
        obtain ⟨hpath, hd⟩ := hplain rfl rfl
        exact ⟨hhas', hpath, hdesc.mp hd, hinline⟩
    · rintro ⟨hhas, hpath, hrepo, hinline⟩
      rw [load_append hload hinline hid hpath (hdesc.mpr hrepo), register, if_neg]
      rw [hhas]
      decide

/-- A small configuration. -/
def smallLines : List String :=
  ["[listen]\n", "host = \"h\"\n", "port = 80\n",
    "[llama]\n", "repo = \"~/l\"\n", "build_dir = \"b\"\n", "binary = \"s\"\n",
    "git_remote = \"o\"\n", "git_branch = \"m\"\n",
    "[worker]\n", "port = 81\n", "[hf]\n", "cache = \"c\"\n",
    "[proxmox]\n", "api = \"https://p\"\n", "node = \"n\"\n", "token_id = \"t\"\n",
    "ct_storage = \"s\"\n", "ct_tag = \"g\"\n", "[db]\n", "pgurl = \"p\"\n"]

def smallConfig : FileConfig where
  listen := ⟨"h", 80⟩
  llama := ⟨"/root/l", "b", "s", "o", "m"⟩
  worker := ⟨81, [], [], true, 0⟩
  hf := ⟨["uvx", "hf"], "c", false⟩
  proxmox := ⟨"https://p", "n", "t", "s", "g", 0, none, []⟩
  db := ⟨"p", false⟩

/-- What is evaluated of it: it loads, its models are tables, and the search finds no entry of `m`
in it, nor in what `persist_model` makes of it. -/
theorem smallLines_spec :
    load (some "/root") (String.join smallLines) = .ok smallConfig ∧
      inlineModels (String.join smallLines) = false ∧
      containsText (String.join smallLines) (modelNeedle "m") = false ∧
      containsText (String.join smallLines ++ modelBlock "m" "/m.gguf" "hf: o/m")
        (modelNeedle "m") = false := by
  refine ⟨?_, ?_, ?_, ?_⟩
  · rw [load, String.toList_join]
    decide +kernel
  · rw [inlineModels, String.toList_join]
    decide +kernel
  · rw [containsText, String.toList_join]
    decide +kernel
  · rw [containsText, String.toList_append, String.toList_join, modelBlock_toList]
    decide +kernel

theorem load_smallLines : load (some "/root") (String.join smallLines) = .ok smallConfig :=
  smallLines_spec.1

theorem inlineModels_smallLines : inlineModels (String.join smallLines) = false :=
  smallLines_spec.2.1

/-- The model of the file `/m.gguf` of the repository `o/m`. -/
theorem deriveId_m : deriveId (fun _ => false) "/m.gguf" = "m" := by decide

theorem plain_m : Plain "m".toList ∧ Plain "/m.gguf".toList ∧ Plain "o/m".toList := by
  simp only [String.reduceToList]
  decide

theorem persistModel_round_trips_iff_small :
    load (some "/root") (persistModel (String.join smallLines) "m" "/m.gguf" "hf: o/m")
      = .ok (smallConfig.register ⟨"m", "/m.gguf", false, "hf: o/m"⟩) := by
  have h := persistModel_round_trips_iff (fun _ => false) load_smallLines "/m.gguf" "o/m"
  rw [deriveId_m, smallLines_spec.2.2.1] at h
  exact h.mpr ⟨rfl, plain_m.2.1, plain_m.2.2, inlineModels_smallLines⟩

/-- **A model is appended twice**: the search is for a single blank before the equals sign, so
that it misses the very lines that `persist_model` has written. -/
theorem aligned_model_appended_twice :
    ¬ ∀ (unicode : Char → Bool) (home : Option String) (text : String) (cfg : FileConfig)
        (path repo : String), load home text = .ok cfg →
      load home (persistModel text (deriveId unicode path) path ("hf: " ++ repo))
        = .ok (cfg.register ⟨deriveId unicode path, path, false, "hf: " ++ repo⟩) := by
  intro hall
  have hdesc : Plain "hf: o/m".toList := by
    simp only [String.reduceToList]
    decide
  -- The file after the first download of the model.
  have hload := load_append load_smallLines inlineModels_smallLines plain_m.1 plain_m.2.1 hdesc
  have h := hall (fun _ => false) (some "/root") _ _ "/m.gguf" "o/m" hload
  rw [deriveId_m, persistModel, if_neg (by rw [smallLines_spec.2.2.2]; decide)] at h
  obtain ⟨-, m, hm, -⟩ := of_load_append hload plain_m.1 h
  rw [register_eq_self_iff.mpr (by decide), List.getElem?_eq_none (Nat.le_refl _)] at hm
  cases hm

end LlmCtl
