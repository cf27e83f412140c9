/-
# The configuration file (`config.rs`)

`Config::load` takes its fields from a TOML document by their names, with the defaults of the
fields that may be missing; names that it does not know are passed over.  It then expands `~`
in the paths that the daemon touches, and refuses an API of the hypervisor that is not
`https://`.

`home` is the environment variable `HOME`.
-/
import LlmCtl.TomlReader
import LlmCtl.WorkerState

namespace LlmCtl

open Toml

/-! ## Fields -/

/-- The value of a field: by its name in a table, by its position in an array. -/
def fieldOf (v : Value) (name : String) (i : ℕ) : Option Value :=
  match v with
  | .table _ es => find? es name.toList
  | .array vs => vs[i]?
  | .tables ts => ts[i]?
  | _ => none

/-- A field without a default. -/
def required {α : Type} (decode : Value → Option α) (v : Value) (name : String) (i : ℕ) :
    Option α :=
  (fieldOf v name i).bind decode

/-- `#[serde(default)]`. -/
def optional {α : Type} (decode : Value → Option α) (dflt : α) (v : Value) (name : String)
    (i : ℕ) : Option α :=
  match fieldOf v name i with
  | none => some dflt
  | some x => decode x

/-- `String`. -/
def asString : Value → Option String
  | .str s => some (String.ofList s)
  | _ => none

/-- `bool`. -/
def asBool : Value → Option Bool
  | .bool b => some b
  | _ => none

/-- `u16`. -/
def asU16 : Value → Option UInt16
  | .int n => if 0 ≤ n ∧ n < 2 ^ 16 then some n.toNat.toUInt16 else none
  | _ => none

/-- `u32`. -/
def asU32 : Value → Option UInt32
  | .int n => if 0 ≤ n ∧ n < 2 ^ 32 then some n.toNat.toUInt32 else none
  | _ => none

/-- `Vec<T>`. -/
def asVec {α : Type} (decode : Value → Option α) : Value → Option (List α)
  | .array vs => vs.mapM decode
  | .tables ts => ts.mapM decode
  | _ => none

/-- `HashMap<String, String>` and `BTreeMap<String, String>`. -/
def asMap : Value → Option (List (String × String))
  | .table _ es => es.mapM fun e => (asString e.2).map fun s => (String.ofList e.1, s)
  | _ => none

/-! ## The configuration -/

/-- `Listen`. -/
structure Listen where
  host : String
  port : UInt16
  deriving DecidableEq

/-- `Llama`. -/
structure Llama where
  repo : String
  buildDir : String
  binary : String
  gitRemote : String
  gitBranch : String
  deriving DecidableEq

/-- `Hf`. -/
structure Hf where
  cli : List String := ["uvx", "hf"]
  cache : String
  autoregister : Bool := false
  deriving DecidableEq

/-- `Proxmox`. -/
structure Proxmox where
  api : String
  node : String
  tokenId : String
  ctStorage : String
  ctTag : String
  ctVmidStart : UInt16 := 0
  certFile : Option String := none
  cts : List (String × String) := []
  deriving DecidableEq

/-- `Db`. -/
structure Db where
  pgurl : String
  schemaMigrate : Bool := false
  deriving DecidableEq

deriving instance DecidableEq for Worker

/-- `config::Config`. -/
structure FileConfig where
  listen : Listen
  llama : Llama
  worker : Worker
  hf : Hf
  proxmox : Proxmox
  db : Db
  models : List Model := []
  deriving DecidableEq

/-! ## Decoding -/

def Listen.decode (v : Value) : Option Listen := do
  let host ← required asString v "host" 0
  let port ← required asU16 v "port" 1
  return ⟨host, port⟩

def Llama.decode (v : Value) : Option Llama := do
  let repo ← required asString v "repo" 0
  let buildDir ← required asString v "build_dir" 1
  let binary ← required asString v "binary" 2
  let gitRemote ← required asString v "git_remote" 3
  let gitBranch ← required asString v "git_branch" 4
  return ⟨repo, buildDir, binary, gitRemote, gitBranch⟩

def Worker.decode (v : Value) : Option Worker := do
  let port ← required asU16 v "port" 0
  let defaultArgs ← optional (asVec asString) [] v "default_args" 1
  let gpuEnv ← optional asMap [] v "gpu_env" 2
  let restartOnCrash ← optional asBool true v "restart_on_crash" 3
  let maxRestarts ← optional asU32 0 v "max_restarts" 4
  return ⟨port, defaultArgs, gpuEnv, restartOnCrash, maxRestarts⟩

def Hf.decode (v : Value) : Option Hf := do
  let cli ← optional (asVec asString) ["uvx", "hf"] v "cli" 0
  let cache ← required asString v "cache" 1
  let autoregister ← optional asBool false v "autoregister" 2
  return ⟨cli, cache, autoregister⟩

def Proxmox.decode (v : Value) : Option Proxmox := do
  let api ← required asString v "api" 0
  let node ← required asString v "node" 1
  let tokenId ← required asString v "token_id" 2
  let ctStorage ← required asString v "ct_storage" 3
  let ctTag ← required asString v "ct_tag" 4
  let ctVmidStart ← optional asU16 0 v "ct_vmid_start" 5
  let certFile ← optional (fun x => (asString x).map some) none v "cert_file" 6
  let cts ← optional asMap [] v "cts" 7
  return ⟨api, node, tokenId, ctStorage, ctTag, ctVmidStart, certFile, cts⟩

def Db.decode (v : Value) : Option Db := do
  let pgurl ← required asString v "pgurl" 0
  let schemaMigrate ← optional asBool false v "schema_migrate" 1
  return ⟨pgurl, schemaMigrate⟩

def Model.decode (v : Value) : Option Model := do
  let id ← required asString v "id" 0
  let model ← required asString v "model" 1
  let autostart ← optional asBool false v "autostart" 2
  let description ← optional asString "" v "description" 3
  return ⟨id, model, autostart, description⟩

namespace FileConfig

def decode (v : Value) : Option FileConfig := do
  let listen ← required Listen.decode v "listen" 0
  let llama ← required Llama.decode v "llama" 1
  let worker ← required Worker.decode v "worker" 2
  let hf ← required Hf.decode v "hf" 3
  let proxmox ← required Proxmox.decode v "proxmox" 4
  let db ← required Db.decode v "db" 5
  let models ← optional (asVec Model.decode) [] v "models" 6
  return ⟨listen, llama, worker, hf, proxmox, db, models⟩

end FileConfig

/-! ## `Config::load` -/

/-- `expand_tilde`. -/
def expandTilde (home : Option String) (p : String) : String :=
  match p.toList, home with
  | '~' :: '/' :: rest, some home => String.join [home, "/", String.ofList rest]
  | _, _ => p

/-- Why a configuration is refused: its text is no TOML or lacks a field, or the API is not
`https://`. -/
inductive LoadError where
  | toml
  | plaintext (message : String)
  deriving DecidableEq

namespace FileConfig

/-- The paths that are touched directly. -/
def expand (home : Option String) (cfg : FileConfig) : FileConfig :=
  { cfg with
    llama := { cfg.llama with
      repo := expandTilde home cfg.llama.repo
      buildDir := expandTilde home cfg.llama.buildDir
      binary := expandTilde home cfg.llama.binary }
    hf := { cfg.hf with cache := expandTilde home cfg.hf.cache } }

/-- `Config::load`, for the text of the file. -/
def load (home : Option String) (text : String) : Except LoadError FileConfig :=
  match (parse text.toList).bind fun root => decode (.table .header root) with
  | none => .error .toml
  | some cfg =>
    if "https://".toList.isPrefixOf cfg.proxmox.api.toList then .ok (cfg.expand home)
    else .error (.plaintext
      (String.join ["proxmox.api must be https:// (got '", cfg.proxmox.api, "')"]))

/-- Has a model this id? -/
def hasModel (cfg : FileConfig) (id : String) : Bool := cfg.models.any fun m => m.id == id

/-- The configuration with one more model. -/
def addModel (cfg : FileConfig) (m : Model) : FileConfig :=
  { cfg with models := cfg.models ++ [m] }

/-- What a decoded configuration says of the document, field by field. -/
theorem decode_eq_some_iff {v : Value} {cfg : FileConfig} :
    decode v = some cfg ↔
      required Listen.decode v "listen" 0 = some cfg.listen ∧
      required Llama.decode v "llama" 1 = some cfg.llama ∧
      required Worker.decode v "worker" 2 = some cfg.worker ∧
      required Hf.decode v "hf" 3 = some cfg.hf ∧
      required Proxmox.decode v "proxmox" 4 = some cfg.proxmox ∧
      required Db.decode v "db" 5 = some cfg.db ∧
      optional (asVec Model.decode) [] v "models" 6 = some cfg.models := by
  obtain ⟨listen, llama, worker, hf, proxmox, db, models⟩ := cfg
  constructor
  · intro h
    simp only [decode, Option.bind_eq_bind, Option.bind_eq_some_iff, Option.pure_def,
      Option.some.injEq, FileConfig.mk.injEq] at h
    obtain ⟨_, h₀, _, h₁, _, h₂, _, h₃, _, h₄, _, h₅, _, h₆, rfl, rfl, rfl, rfl, rfl, rfl, rfl⟩ := h
    exact ⟨h₀, h₁, h₂, h₃, h₄, h₅, h₆⟩
  · rintro ⟨h₀, h₁, h₂, h₃, h₄, h₅, h₆⟩
    simp [decode, h₀, h₁, h₂, h₃, h₄, h₅, h₆]

/-- What is accepted: the text decodes, and its API is `https://`. -/
theorem load_eq_ok_iff {home : Option String} {text : String} {cfg : FileConfig} :
    load home text = .ok cfg ↔
      ∃ root cfg₀, parse text.toList = some root ∧ decode (.table .header root) = some cfg₀ ∧
        "https://".toList.isPrefixOf cfg₀.proxmox.api.toList = true ∧
        cfg = cfg₀.expand home := by
  constructor
  · intro h
    unfold load at h
    split at h
    · cases h
    · next cfg₀ hdec =>
      obtain ⟨root, hroot, hdec⟩ := Option.bind_eq_some_iff.mp hdec
      split at h
      · next hapi =>
        cases h
        exact ⟨root, cfg₀, hroot, hdec, hapi, rfl⟩
      · cases h
  · rintro ⟨root, cfg₀, hroot, hdec, hapi, rfl⟩
    simp only [load, hroot, Option.bind_some, hdec, hapi, if_true]

end FileConfig

end LlmCtl
