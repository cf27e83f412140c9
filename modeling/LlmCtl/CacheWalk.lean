/-
# The look-up of a downloaded file (`download.rs`)

After a download `resolve_gguf` walks through the cache of the repository, with a stack of
directories, and takes the GGUF file that was changed last, and of several such the one that it
met first.  What was asked for is not looked at.

So the file that was asked for is registered just if it is the first of the newest files in the
cache, of this download and of all earlier ones.
-/
import LlmCtl.Registration
import Mathlib.Data.List.MinMax

namespace LlmCtl

open EventSystem

/-! ## The cache -/

/-- What a directory holds: a file, with the time of its last change, or a directory. -/
inductive Entry where
  | file (name : String) (mtime : ℕ)
  | dir (name : String) (entries : List Entry)

/-- A GGUF file with its path. -/
structure GgufFile where
  path : String
  mtime : ℕ
  deriving DecidableEq

/-- `Path::join`, with a name. -/
def joinPath (dir name : String) : String :=
  if dir = "" ∨ dir.toList.getLast? = some '/' then dir ++ name else String.join [dir, "/", name]

/-- `Path::extension`: what follows the last dot, unless this is the first character. -/
def extension (name : String) : Option String :=
  match name.toList.reverse.dropWhile (· ≠ '.') with
  | _ :: _ :: _ => some (String.ofList (name.toList.reverse.takeWhile (· ≠ '.')).reverse)
  | _ => none

/-- The GGUF files of a directory. -/
def ggufsOf (dir : String) (entries : List Entry) : List GgufFile :=
  entries.filterMap fun
    | .file name mtime =>
      if extension name = some "gguf" then some ⟨joinPath dir name, mtime⟩ else none
    | .dir _ _ => none

/-- The directories of a directory. -/
def subdirs (dir : String) (entries : List Entry) : List (String × List Entry) :=
  entries.filterMap fun
    | .file _ _ => none
    | .dir name entries => some (joinPath dir name, entries)

/-! ## The walk -/

mutual

/-- How many directories there are. -/
def Entry.dirs : Entry → ℕ
  | .file _ _ => 0
  | .dir _ entries => 1 + dirsIn entries

def dirsIn : List Entry → ℕ
  | [] => 0
  | e :: es => e.dirs + dirsIn es

end

/-- The directories that the walk has before it. -/
def stackDirs (stack : List (String × List Entry)) : ℕ :=
  (stack.map fun d => 1 + dirsIn d.2).sum

theorem stackDirs_cons (dir : String) (entries : List Entry) (stack : List (String × List Entry)) :
    stackDirs ((dir, entries) :: stack) = 1 + dirsIn entries + stackDirs stack := rfl

theorem stackDirs_subdirs (dir : String) (entries : List Entry) :
    stackDirs (subdirs dir entries) = dirsIn entries := by
  induction entries with
  | nil => rfl
  | cons e es ih =>
    cases e with
    | file name mtime =>
      have hskip : subdirs dir (.file name mtime :: es) = subdirs dir es := rfl
      rw [hskip, ih, dirsIn, Entry.dirs, Nat.zero_add]
    | dir name entries =>
      have hpush : subdirs dir (.dir name entries :: es)
          = (joinPath dir name, entries) :: subdirs dir es := rfl
      rw [hpush, stackDirs_cons, ih, dirsIn, Entry.dirs]

theorem stackDirs_push (dir : String) (entries : List Entry) (stack : List (String × List Entry)) :
    stackDirs ((subdirs dir entries).reverse ++ stack) = dirsIn entries + stackDirs stack := by
  rw [stackDirs, List.map_append, List.map_reverse, List.sum_append, List.sum_reverse,
    ← stackDirs, ← stackDirs, stackDirs_subdirs]

/-- The loop of `resolve_gguf`: a directory is taken from the stack, its files are compared with
the best one so far, and its directories are put on the stack. -/
def walk {β : Type*} (f : β → GgufFile → β) (best : β) : List (String × List Entry) → β
  | [] => best
  | (dir, entries) :: stack =>
    walk f ((ggufsOf dir entries).foldl f best) ((subdirs dir entries).reverse ++ stack)
termination_by stack => stackDirs stack
decreasing_by
  rw [stackDirs_push, stackDirs_cons]
  omega

/-- A file is better than the best one so far if it is newer. -/
def newer (best : Option GgufFile) (f : GgufFile) : Option GgufFile :=
  match best with
  | none => some f
  | some b => if b.mtime < f.mtime then some f else some b

/-- Where the cache keeps a repository. -/
def repoDir (cache repo : String) : String :=
  joinPath (joinPath cache "hub")
    ("models--" ++ String.ofList (repo.toList.flatMap fun c => if c = '/' then ['-', '-'] else [c]))

/-- **`resolve_gguf`**, where the directory of the repository holds `entries`. -/
def resolveGguf (cache repo : String) (entries : List Entry) : Option String :=
  (walk newer none [(repoDir cache repo, entries)]).map GgufFile.path

/-! ## What the walk meets -/

mutual

/-- The GGUF files below a directory, in the order of the walk: its own, and then those of its
directories, the last one first. -/
def filesBelow (dir : String) : List Entry → List GgufFile
  | [] => []
  | e :: es => filesBelow dir es ++ e.filesBelow dir

def Entry.filesBelow (dir : String) : Entry → List GgufFile
  | .file _ _ => []
  | .dir name entries =>
    ggufsOf (joinPath dir name) entries ++ LlmCtl.filesBelow (joinPath dir name) entries

end

/-- The GGUF files of a directory and below, in the order of the walk. -/
def filesIn (dir : String × List Entry) : List GgufFile :=
  ggufsOf dir.1 dir.2 ++ filesBelow dir.1 dir.2

theorem flatMap_filesIn (dir : String) (entries : List Entry) :
    (subdirs dir entries).reverse.flatMap filesIn = filesBelow dir entries := by
  induction entries with
  | nil => rfl
  | cons e es ih =>
    cases e with
    | file name mtime =>
      have hskip : subdirs dir (.file name mtime :: es) = subdirs dir es := rfl
      rw [hskip, ih, filesBelow, Entry.filesBelow, List.append_nil]
    | dir name entries =>
      have hpush : subdirs dir (.dir name entries :: es)
          = (joinPath dir name, entries) :: subdirs dir es := rfl
      rw [hpush, List.reverse_cons, List.flatMap_append, ih, filesBelow, Entry.filesBelow,
        List.flatMap_singleton, filesIn]

/-- **The walk looks at every file, in order.** -/
theorem walk_eq {β : Type*} (f : β → GgufFile → β) (best : β)
    (stack : List (String × List Entry)) :
    walk f best stack = (stack.flatMap filesIn).foldl f best := by
  fun_induction walk f best stack with
  | case1 best => rfl
  | case2 best dir entries stack ih =>
    rw [ih, List.flatMap_append, flatMap_filesIn, List.flatMap_cons, filesIn, List.foldl_append,
      List.foldl_append, List.foldl_append]

theorem newer_eq : newer = List.argAux fun f b : GgufFile => b.mtime < f.mtime := by
  funext best f
  cases best <;> rfl

/-- **`resolve_gguf` takes the first of the newest files.** -/
theorem resolveGguf_eq (cache repo : String) (entries : List Entry) :
    resolveGguf cache repo entries
      = ((filesIn (repoDir cache repo, entries)).argmax GgufFile.mtime).map GgufFile.path := by
  rw [resolveGguf, walk_eq, List.flatMap_singleton, newer_eq]
  rfl

/-! ## The file that was asked for -/

/-- A path at which the cache keeps a file of a repository: in the snapshot of some revision. -/
def CachedPath (cache repo included path : String) : Prop :=
  ∃ rev : String, '/' ∉ rev.toList ∧
    path = joinPath (joinPath (joinPath (repoDir cache repo) "snapshots") rev) included

section Requested

variable (hf : Hf) (unicode : Char → Bool) (m : DownloadManager) (i : ℕ) (repo : String)
  (entries : List Entry) (written : Bool)

/-- The file that the running job asks for is in the cache. -/
def RequestedPresent : Prop :=
  ∃ included, m.job.included = some included ∧
    ∃ f ∈ filesIn (repoDir hf.cache repo, entries), CachedPath hf.cache repo included f.path

/-- **The task registers the file that was asked for**: it looks up the file, and the path that
it registers is one at which the cache keeps what the job asks for. -/
def RegistersRequested : Prop :=
  ∃ included path m' new, m.job.included = some included ∧
    (observedDownloads hf unicode).exec m
        [.go i (.resolved (resolveGguf hf.cache repo entries)), .go i (.persisted written)]
      = some (m', [.registered path new, .found (some path)]) ∧
    CachedPath hf.cache repo included path

/-- The file that was asked for is the first of the newest files in the cache. -/
def RequestedNewest : Prop :=
  ∃ included, m.job.included = some included ∧
    ∃ f ∈ filesIn (repoDir hf.cache repo, entries), CachedPath hf.cache repo included f.path ∧
      (∀ g ∈ filesIn (repoDir hf.cache repo, entries), g.mtime ≤ f.mtime) ∧
      ∀ g ∈ filesIn (repoDir hf.cache repo, entries), f.mtime ≤ g.mtime →
        (filesIn (repoDir hf.cache repo, entries)).idxOf f
          ≤ (filesIn (repoDir hf.cache repo, entries)).idxOf g

variable {hf unicode m i repo entries written}

/-- The file that is found is registered. -/
theorem exec_found {claim : ℕ} (hc : m.starts[i]? = some ⟨.resolve repo, claim⟩) (path : String) :
    ∃ m' new, (observedDownloads hf unicode).exec m
        [.go i (.resolved (some path)), .go i (.persisted written)]
      = some (m', [.registered path new, .found (some path)]) := by
  let m₁ := m.setPc i (.register repo path)
  have hc₁ : m₁.starts[i]? = some ⟨.register repo path, claim⟩ := JobManager.starts_setPc hc _
  have hfind : (observedDownloads hf unicode).step m (.go i (.resolved (some path)))
      = some (m₁, [.found (some path)]) := by
    have hs : (downloads hf unicode).step m (.go i (.resolved (some path))) = some (m₁, []) :=
      JobProgram.step_go hc _
    have hfacts : jobFacts unicode m (.go i (.resolved (some path))) = [.found (some path)] := by
      rw [jobFacts, hc]
      rfl
    show Option.map _ _ = _
    rw [hs, Option.map_some, hfacts]
  have hreg : (observedDownloads hf unicode).step m₁ (.go i (.persisted written))
      = some ((registerStep unicode m₁ i ⟨.register repo path, claim⟩ repo path written).1,
          [.registered path (!m₁.rest.knows (deriveId unicode path))]) := by
    have hs : (downloads hf unicode).step m₁ (.go i (.persisted written))
        = some (registerStep unicode m₁ i ⟨.register repo path, claim⟩ repo path written) :=
      JobProgram.step_go hc₁ _
    have hfacts : jobFacts unicode m₁ (.go i (.persisted written))
        = [.registered path (!m₁.rest.knows (deriveId unicode path))] := by
      rw [jobFacts, hc₁]
      rfl
    show Option.map _ _ = _
    rw [hs, Option.map_some, hfacts]
  refine ⟨(registerStep unicode m₁ i ⟨.register repo path, claim⟩ repo path written).1,
    !m₁.rest.knows (deriveId unicode path), ?_⟩
  simp only [EventSystem.exec, hfind, hreg]
  rfl

/-- A task that finds nothing registers nothing. -/
theorem found_of_exec {claim : ℕ} (hc : m.starts[i]? = some ⟨.resolve repo, claim⟩)
    {found : Option String} {m' : DownloadManager} {path : String} {new : Bool}
    (hx : (observedDownloads hf unicode).exec m
        [.go i (.resolved found), .go i (.persisted written)]
      = some (m', [.registered path new, .found (some path)])) : found = some path := by
  simp only [EventSystem.exec] at hx
  split at hx
  · exact absurd hx (by simp)
  · next m₁ ev₁ hs₁ =>
    obtain ⟨rfl, -⟩ := observe_step hs₁
    split at hx
    · exact absurd hx (by simp)
    · next m₂ ev₂ hs₂ =>
      obtain ⟨-, hev⟩ := Prod.mk.inj (Option.some.inj hx)
      have hlast := congrArg List.getLast? hev
      rw [jobFacts, hc] at hlast
      simpa [factsOf] using hlast

/-- **The file that was asked for is registered just if it is the first of the newest files** in
the cache of the repository. -/
theorem registers_requested_iff (claim : ℕ) (hc : m.starts[i]? = some ⟨.resolve repo, claim⟩) :
    RegistersRequested hf unicode m i repo entries written ↔
      RequestedNewest hf m repo entries := by
  constructor
  · rintro ⟨included, path, m', new, hinc, hx, hcached⟩
    have hfound := found_of_exec hc hx
    rw [resolveGguf_eq] at hfound
    obtain ⟨f, hbest, rfl⟩ := Option.map_eq_some_iff.mp hfound
    obtain ⟨hmem, hmax, hfirst⟩ := List.mem_argmax_iff.mp (Option.mem_def.mpr hbest)
    exact ⟨included, hinc, f, hmem, hcached, hmax, hfirst⟩
  · rintro ⟨included, hinc, f, hmem, hcached, hmax, hfirst⟩
    have hbest : (filesIn (repoDir hf.cache repo, entries)).argmax GgufFile.mtime = some f :=
      List.mem_argmax_iff.mpr ⟨hmem, hmax, hfirst⟩
    have hfound : resolveGguf hf.cache repo entries = some f.path := by
      rw [resolveGguf_eq, hbest, Option.map_some]
    obtain ⟨m', new, hx⟩ := exec_found hc f.path
    exact ⟨included, f.path, m', new, hinc, by rw [hfound]; exact hx, hcached⟩

end Requested

/-- Two files of a repository, of which the second is newer. -/
def twoQuants : List Entry :=
  [.dir "snapshots" [.dir "1a2b" [.file "Q4.gguf" 100, .file "Q8.gguf" 200, .file "README.md" 300]]]

/-- A download of one file, up to the look-up. -/
def downloadOf (included : String) : List (JobAct HfDownloadReq DownloadEnv) :=
  .call ⟨"org/model", some included⟩ ::
    [.next 1, .next 1, .spawned, .exited (some ⟨some 0⟩) [], .next 2].map fun e => .go 0 e

/-- The task of a download waits for the look-up. -/
theorem downloadOf_reaches (included : String)
    (hx : ((observedDownloads plainHf asciiOnly).exec newDownloads (downloadOf included)).any
      (fun r => decide ((r.1.starts[0]?).map Start.pc = some (.resolve "org/model") ∧
        r.1.job.included = some included)) = true) :
    ∃ tr m claim, (observedDownloads plainHf asciiOnly).Run Anything tr m ∧
      m.starts[0]? = some ⟨.resolve "org/model", claim⟩ ∧ m.job.included = some included := by
  obtain ⟨tr, m, h, hp⟩ := Run.reaches (observedDownloads plainHf asciiOnly) Anything
    (downloadOf included)
    (fun _ m => decide ((m.starts[0]?).map Start.pc = some (DownloadPc.resolve "org/model") ∧
      m.job.included = some included)) (observedDownloads_init _ _) (admits_anything _ _ _) hx
  obtain ⟨hpc, hinc⟩ := of_decide_eq_true hp
  obtain ⟨⟨pc, claim⟩, hc, rfl⟩ := Option.map_eq_some_iff.mp hpc
  exact ⟨tr, m, claim, h, hc, hinc⟩

/-- The newer file is registered if it is asked for. -/
theorem registers_requested_iff_newer :
    ∃ tr m, (observedDownloads plainHf asciiOnly).Run Anything tr m ∧
      m.job.included = some "Q8.gguf" ∧
      RegistersRequested plainHf asciiOnly m 0 "org/model" twoQuants true := by
  obtain ⟨tr, m, claim, h, hc, hinc⟩ := downloadOf_reaches "Q8.gguf" (by decide)
  refine ⟨tr, m, h, hinc, (registers_requested_iff claim hc).mpr ⟨"Q8.gguf", hinc,
    ⟨"/cache/hub/models--org--model/snapshots/1a2b/Q8.gguf", 200⟩, by decide,
    ⟨"1a2b", by decide, by decide⟩, by decide, by decide⟩⟩

theorem suffix_joinPath (dir name : String) : name.toList <:+ (joinPath dir name).toList := by
  unfold joinPath
  split
  · exact ⟨dir.toList, by simp⟩
  · exact ⟨dir.toList ++ ['/'], by simp [String.join]⟩

/-- **The newest file is registered, and not the one that was asked for**: a download of a file
that is in the cache leaves the file as it is, and an earlier download left a newer one. -/
theorem newest_file_registered :
    ¬ ∀ tr m i repo claim entries written,
      (observedDownloads plainHf asciiOnly).Run Anything tr m →
        m.starts[i]? = some ⟨.resolve repo, claim⟩ → RequestedPresent plainHf m repo entries →
          RegistersRequested plainHf asciiOnly m i repo entries written := by
  intro hall
  obtain ⟨tr, m, claim, h, hc, hinc⟩ := downloadOf_reaches "Q4.gguf" (by decide)
  have hpresent : RequestedPresent plainHf m "org/model" twoQuants :=
    ⟨"Q4.gguf", hinc, ⟨"/cache/hub/models--org--model/snapshots/1a2b/Q4.gguf", 100⟩,
      by decide, "1a2b", by decide, by decide⟩
  obtain ⟨included, path, m', new, hinc', hx, rev, -, hpath⟩ :=
    hall tr m 0 "org/model" claim twoQuants true h hc hpresent
  obtain rfl := Option.some.inj (hinc.symm.trans hinc')
  -- the newer file is found
  have hfound : some path = some "/cache/hub/models--org--model/snapshots/1a2b/Q8.gguf" := by
    rw [← found_of_exec hc hx, resolveGguf_eq]
    decide
  have hsuffix : "Q4.gguf".toList <:+ path.toList := by
    rw [hpath]
    exact suffix_joinPath _ _
  rw [Option.some.inj hfound] at hsuffix
  exact absurd hsuffix (by decide)

end LlmCtl
