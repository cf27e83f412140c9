/-
# The walk through the cache (`download.rs`)

`resolve_gguf` once more, with all that a file system may answer: names are bytes, a directory or
one of its entries may not be readable, and the time of a file may not be known.  The walk ends,
and it finds a newest GGUF file whenever there is one that can be reached.

Where all names are texts and everything can be read, this is the walk of `CacheWalk`.
-/
import LlmCtl.CacheWalk
import LlmCtl.StackSearch
import LlmCtl.Utf8Text

namespace LlmCtl

namespace CacheTree

/-! ## The cache -/

/-- An entry of a directory.  `is_dir` decides between directories and files. -/
inductive Node where
  /-- The entry itself cannot be read. -/
  | unreadable
  /-- A file, with the time of its last change in nanoseconds since 1970, if it is known. -/
  | file (name : List UInt8) (modified : Option ℤ)
  | dir (name : List UInt8) (entries : List Node)
  /-- A directory that `read_dir` fails to open. -/
  | closedDir (name : List UInt8)

/-- A directory on the stack, with what `read_dir` gives. -/
structure Dir where
  path : List UInt8
  entries : Option (List Node)

/-- `Path::join`, with a name. -/
def join (dir name : List UInt8) : List UInt8 :=
  if dir = [] ∨ dir.getLast? = some 47 then dir ++ name else dir ++ 47 :: name

/-- `Path::extension`: what follows the last dot, unless this is the first byte. -/
def extension (name : List UInt8) : Option (List UInt8) :=
  match name.reverse.dropWhile (· ≠ 46) with
  | _ :: _ :: _ => some (name.reverse.takeWhile (· ≠ 46)).reverse
  | _ => none

/-- Whether the extension is `gguf`. -/
def isGguf (name : List UInt8) : Bool := extension name == some [103, 103, 117, 102]

/-- The time of a file in seconds, and 0 if it is not known or before 1970. -/
def mtime (modified : Option ℤ) : ℕ :=
  match modified with
  | some t => if t < 0 then 0 else (t / 10 ^ 9).toNat
  | none => 0

/-! ## The walk -/

/-- The variables of `resolve_gguf`. -/
structure Walk where
  best : Option (List UInt8 × ℕ)
  stack : List Dir

/-- A file is compared with the best one so far. -/
def Walk.offer (w : Walk) (path : List UInt8) (t : ℕ) : Walk :=
  match w.best with
  | none => { w with best := some (path, t) }
  | some (_, m) => if m < t then { w with best := some (path, t) } else w

/-- The loop over the entries of a directory. -/
def Walk.look (dir : List UInt8) (w : Walk) : Node → Walk
  | .unreadable => w
  | .dir name entries => { w with stack := ⟨join dir name, some entries⟩ :: w.stack }
  | .closedDir name => { w with stack := ⟨join dir name, none⟩ :: w.stack }
  | .file name modified =>
    if isGguf name then w.offer (join dir name) (mtime modified) else w

/-- A turn of the loop over the stack; nothing when the stack is empty. -/
def Walk.turn (w : Walk) : Option Walk :=
  match w.stack with
  | [] => none
  | d :: stack =>
    match d.entries with
    | none => some { w with stack := stack }
    | some entries => some (entries.foldl (Walk.look d.path) { w with stack := stack })

/-! ## The directories -/

mutual

/-- How many directories there are. -/
def Node.dirs : Node → ℕ
  | .unreadable => 0
  | .file _ _ => 0
  | .dir _ entries => 1 + dirsIn entries
  | .closedDir _ => 1

def dirsIn : List Node → ℕ
  | [] => 0
  | e :: es => e.dirs + dirsIn es

end

/-- The directories of a directory, itself among them. -/
def Dir.dirs (d : Dir) : ℕ := 1 + dirsIn (d.entries.getD [])

/-- The directory of an entry. -/
def Node.subdir (dir : List UInt8) : Node → Option Dir
  | .dir name entries => some ⟨join dir name, some entries⟩
  | .closedDir name => some ⟨join dir name, none⟩
  | .unreadable => none
  | .file _ _ => none

/-- The GGUF file of an entry, with its time. -/
def Node.gguf (dir : List UInt8) : Node → Option (List UInt8 × ℕ)
  | .file name modified => if isGguf name then some (join dir name, mtime modified) else none
  | .dir _ _ => none
  | .closedDir _ => none
  | .unreadable => none

/-- The directories of a directory. -/
def Dir.subdirs (d : Dir) : List Dir := (d.entries.getD []).filterMap (Node.subdir d.path)

/-- The GGUF files of a directory. -/
def Dir.ggufs (d : Dir) : List (List UInt8 × ℕ) := (d.entries.getD []).filterMap (Node.gguf d.path)

theorem sum_dirs_subdirs (dir : List UInt8) (es : List Node) :
    ((es.filterMap (Node.subdir dir)).map Dir.dirs).sum = dirsIn es := by
  induction es with
  | nil => rfl
  | cons e es ih =>
    cases e with
    | unreadable => simp only [List.filterMap_cons, Node.subdir, ih, dirsIn, Node.dirs, zero_add]
    | file name modified =>
      simp only [List.filterMap_cons, Node.subdir, ih, dirsIn, Node.dirs, zero_add]
    | dir name entries =>
      simp only [List.filterMap_cons, Node.subdir, List.map_cons, List.sum_cons, ih, dirsIn,
        Node.dirs, Dir.dirs, Option.getD_some]
    | closedDir name =>
      simp only [List.filterMap_cons, Node.subdir, List.map_cons, List.sum_cons, ih, dirsIn,
        Node.dirs, Dir.dirs, Option.getD_none, add_zero]

/-- The directories of the cache. -/
def forest : Forest Dir where
  next := Dir.subdirs
  rank := Dir.dirs
  shrinks := by
    intro d
    have hsum := sum_dirs_subdirs d.path (d.entries.getD [])
    rw [Dir.subdirs, hsum, Dir.dirs]
    omega

/-! ## The turns -/

/-- The best of two files, of which the first one may be missing. -/
def newer (best : Option (List UInt8 × ℕ)) (f : List UInt8 × ℕ) : Option (List UInt8 × ℕ) :=
  match best with
  | none => some f
  | some b => if b.2 < f.2 then some f else some b

/-- The best file after a directory. -/
def visit (best : Option (List UInt8 × ℕ)) (d : Dir) : Option (List UInt8 × ℕ) :=
  d.ggufs.foldl newer best

theorem Walk.offer_eq (w : Walk) (path : List UInt8) (t : ℕ) :
    w.offer path t = ⟨newer w.best (path, t), w.stack⟩ := by
  obtain ⟨best, stack⟩ := w
  cases best with
  | none => rfl
  | some b =>
    simp only [Walk.offer, newer]
    split <;> rfl

/-- The loop over the entries compares the files and puts the directories on the stack. -/
theorem foldl_look (dir : List UInt8) (es : List Node) (w : Walk) :
    es.foldl (Walk.look dir) w
      = ⟨(es.filterMap (Node.gguf dir)).foldl newer w.best,
          (es.filterMap (Node.subdir dir)).reverse ++ w.stack⟩ := by
  induction es generalizing w with
  | nil => rfl
  | cons e es ih =>
    rw [List.foldl_cons, ih]
    cases e with
    | unreadable => rfl
    | dir name entries =>
      simp only [Walk.look, List.filterMap_cons, Node.gguf, Node.subdir, List.reverse_cons,
        List.append_assoc, List.singleton_append]
    | closedDir name =>
      simp only [Walk.look, List.filterMap_cons, Node.gguf, Node.subdir, List.reverse_cons,
        List.append_assoc, List.singleton_append]
    | file name modified =>
      by_cases hg : isGguf name = true
      · have hlook : w.look dir (.file name modified) = w.offer (join dir name) (mtime modified) :=
          if_pos hg
        have hgguf : Node.gguf dir (.file name modified) = some (join dir name, mtime modified) :=
          if_pos hg
        rw [hlook, Walk.offer_eq, List.filterMap_cons_some hgguf, List.filterMap_cons_none rfl,
          List.foldl_cons]
      · have hlook : w.look dir (.file name modified) = w := if_neg hg
        have hgguf : Node.gguf dir (.file name modified) = none := if_neg hg
        rw [hlook, List.filterMap_cons_none hgguf, List.filterMap_cons_none rfl]

/-- **A turn of the loop is one of the search**: the best file of a directory, and its
directories on the stack. -/
theorem Walk.turn_eq (w : Walk) :
    w.turn = (forest.turn visit (w.best, w.stack)).map fun s => ⟨s.1, s.2⟩ := by
  obtain ⟨best, stack⟩ := w
  cases stack with
  | nil => rfl
  | cons d stack =>
    obtain ⟨path, entries⟩ := d
    cases entries with
    | none => rfl
    | some entries =>
      show some (entries.foldl (Walk.look path) ⟨best, stack⟩) = _
      rw [foldl_look]
      rfl

theorem Walk.weight_turn_lt {w w' : Walk} (h : w.turn = some w') :
    forest.weight w'.stack < forest.weight w.stack := by
  obtain ⟨best, stack⟩ := w
  rw [Walk.turn_eq] at h
  cases stack with
  | nil => exact nomatch h
  | cons d stack =>
    obtain rfl := Option.some.inj h
    exact forest.weight_push_lt d stack

/-- The loop of `resolve_gguf`. -/
def Walk.run (w : Walk) : Option (List UInt8 × ℕ) :=
  match _h : w.turn with
  | none => w.best
  | some w' => w'.run
termination_by forest.weight w.stack
decreasing_by exact Walk.weight_turn_lt _h

/-- Some turns of the loop. -/
def Walk.turns : ℕ → Walk → Option Walk
  | 0, w => some w
  | k + 1, w => w.turn.bind (turns k)

theorem Walk.run_eq (w : Walk) : w.run = forest.search visit w.best w.stack := by
  fun_induction Walk.run w with
  | case1 w h =>
    obtain ⟨best, stack⟩ := w
    rw [Walk.turn_eq] at h
    cases stack with
    | nil => rw [Forest.search]
    | cons d stack => exact absurd h (Option.some_ne_none _)
  | case2 w w' h ih =>
    obtain ⟨best, stack⟩ := w
    rw [Walk.turn_eq] at h
    cases stack with
    | nil => exact absurd h.symm (Option.some_ne_none _)
    | cons d stack =>
      obtain rfl := Option.some.inj h
      rw [ih, Forest.search]

theorem Walk.turns_eq (k : ℕ) (w : Walk) :
    w.turns k = (forest.turns visit k (w.best, w.stack)).map fun s => ⟨s.1, s.2⟩ := by
  induction k generalizing w with
  | zero => rfl
  | succ k ih =>
    rw [Walk.turns, Walk.turn_eq, Forest.turns]
    cases forest.turn visit (w.best, w.stack) with
    | none => rfl
    | some s => exact ih ⟨s.1, s.2⟩

/-- The variables before the loop, where `root` is what `read_dir` gives for the directory of the
repository. -/
def start (cache repo : String) (root : Option (List Node)) : Walk :=
  ⟨none, [⟨utf8 (repoDir cache repo).toList, root⟩]⟩

/-- **`resolve_gguf`**. -/
def resolveGguf (cache repo : String) (root : Option (List Node)) : Option String :=
  (start cache repo root).run.map fun f => fromUtf8Lossy f.1

/-! ## What can be reached -/

/-- A GGUF file with its time, in a directory or below, through directories that can be read. -/
inductive Reachable : Dir → List UInt8 × ℕ → Prop
  | here {dir : List UInt8} {entries : List Node} {name : List UInt8} {modified : Option ℤ} :
      .file name modified ∈ entries → isGguf name = true →
        Reachable ⟨dir, some entries⟩ (join dir name, mtime modified)
  | inside {dir : List UInt8} {entries : List Node} {name : List UInt8} {inner : List Node}
      {f : List UInt8 × ℕ} : .dir name inner ∈ entries →
        Reachable ⟨join dir name, some inner⟩ f → Reachable ⟨dir, some entries⟩ f

theorem mem_ggufs {d : Dir} {f : List UInt8 × ℕ} :
    f ∈ d.ggufs ↔ ∃ entries name modified, d.entries = some entries ∧
      .file name modified ∈ entries ∧ isGguf name = true ∧
        f = (join d.path name, mtime modified) := by
  obtain ⟨path, entries⟩ := d
  cases entries with
  | none => simp [Dir.ggufs]
  | some entries =>
    rw [Dir.ggufs, Option.getD_some, List.mem_filterMap]
    constructor
    · rintro ⟨e, he, hf⟩
      cases e with
      | file name modified =>
        by_cases hg : isGguf name = true
        · exact ⟨entries, name, modified, rfl, he, hg,
            (Option.some.inj ((if_pos hg).symm.trans hf)).symm⟩
        · exact absurd ((if_neg hg).symm.trans hf) (by simp)
      | dir name inner => exact nomatch hf
      | closedDir name => exact nomatch hf
      | unreadable => exact nomatch hf
    · rintro ⟨es, name, modified, hes, hmem, hg, rfl⟩
      obtain rfl := Option.some.inj hes
      exact ⟨_, hmem, if_pos hg⟩

theorem mem_subdirs {d e : Dir} :
    e ∈ d.subdirs ↔ ∃ entries, d.entries = some entries ∧
      ((∃ name inner, .dir name inner ∈ entries ∧ e = ⟨join d.path name, some inner⟩) ∨
        ∃ name, .closedDir name ∈ entries ∧ e = ⟨join d.path name, none⟩) := by
  obtain ⟨path, entries⟩ := d
  cases entries with
  | none => simp [Dir.subdirs]
  | some entries =>
    rw [Dir.subdirs, Option.getD_some, List.mem_filterMap]
    constructor
    · rintro ⟨n, hn, he⟩
      cases n with
      | dir name inner =>
        exact ⟨entries, rfl, .inl ⟨name, inner, hn, (Option.some.inj he).symm⟩⟩
      | closedDir name => exact ⟨entries, rfl, .inr ⟨name, hn, (Option.some.inj he).symm⟩⟩
      | file name modified => exact nomatch he
      | unreadable => exact nomatch he
    · rintro ⟨es, hes, ⟨name, inner, hmem, rfl⟩ | ⟨name, hmem, rfl⟩⟩
      · obtain rfl := Option.some.inj hes
        exact ⟨_, hmem, rfl⟩
      · obtain rfl := Option.some.inj hes
        exact ⟨_, hmem, rfl⟩

/-- The files of the directories that the search visits are those that can be reached. -/
theorem reachable_iff {d : Dir} {f : List UInt8 × ℕ} :
    Reachable d f ↔ ∃ e, Relation.ReflTransGen forest.Next d e ∧ f ∈ e.ggufs := by
  constructor
  · intro h
    induction h with
    | here hmem hg => exact ⟨_, .refl, mem_ggufs.mpr ⟨_, _, _, rfl, hmem, hg, rfl⟩⟩
    | inside hmem _ ih =>
      obtain ⟨e, hreach, hf⟩ := ih
      exact ⟨e, .head (mem_subdirs.mpr ⟨_, rfl, .inl ⟨_, _, hmem, rfl⟩⟩) hreach, hf⟩
  · rintro ⟨e, hreach, hf⟩
    induction hreach using Relation.ReflTransGen.head_induction_on with
    | refl =>
      obtain ⟨path, entries⟩ := e
      obtain ⟨es, name, modified, rfl, hmem, hg, rfl⟩ := mem_ggufs.mp hf
      exact .here hmem hg
    | @head d _ hnext _ ih =>
      obtain ⟨path, entries⟩ := d
      obtain ⟨es, rfl, ⟨name, inner, hmem, rfl⟩ | ⟨name, hmem, rfl⟩⟩ := mem_subdirs.mp hnext
      · exact .inside hmem ih
      · exact nomatch ih

/-- The files that the search compares, in order. -/
def compared (d : Dir) : List (List UInt8 × ℕ) := (forest.order [d]).flatMap Dir.ggufs

theorem mem_compared {d : Dir} {f : List UInt8 × ℕ} : f ∈ compared d ↔ Reachable d f := by
  rw [reachable_iff, compared, List.mem_flatMap]
  constructor
  · rintro ⟨e, he, hf⟩
    obtain ⟨m, hm, hreach⟩ := forest.mem_order.mp he
    obtain rfl := List.mem_singleton.mp hm
    exact ⟨e, hreach, hf⟩
  · rintro ⟨e, hreach, hf⟩
    exact ⟨e, forest.mem_order.mpr ⟨d, List.mem_singleton_self d, hreach⟩, hf⟩

theorem newer_eq : newer = List.argAux fun f b : List UInt8 × ℕ => b.2 < f.2 := by
  funext best f
  cases best <;> rfl

/-- **The walk finds the first of the newest files.** -/
theorem run_start (cache repo : String) (root : Option (List Node)) :
    (start cache repo root).run
      = (compared ⟨utf8 (repoDir cache repo).toList, root⟩).argmax Prod.snd := by
  rw [Walk.run_eq, Forest.search_eq]
  show List.foldl visit none _ = _
  rw [List.argmax, compared, List.foldl_flatMap, ← newer_eq]
  rfl

/-- **`resolve_gguf` finds a newest GGUF file.**  Its loop ends; it finds nothing just if there is
no GGUF file that can be reached; and what it finds is the path of such a file, as a text, and
none is newer. -/
theorem resolved_gguf_newest (cache repo : String) (root : Option (List Node)) :
    (∃ k, (start cache repo root).turns k = some ⟨(start cache repo root).run, []⟩) ∧
      (resolveGguf cache repo root = none ↔
        ∀ f, ¬ Reachable ⟨utf8 (repoDir cache repo).toList, root⟩ f) ∧
      ∀ found, resolveGguf cache repo root = some found →
        ∃ path t, Reachable ⟨utf8 (repoDir cache repo).toList, root⟩ (path, t) ∧
          found = fromUtf8Lossy path ∧ (∀ text : String, path = utf8 text.toList → found = text) ∧
          ∀ path' t', Reachable ⟨utf8 (repoDir cache repo).toList, root⟩ (path', t') → t' ≤ t := by
  refine ⟨?_, ?_, ?_⟩
  · refine ⟨(forest.order (start cache repo root).stack).length, ?_⟩
    rw [Walk.turns_eq, Forest.turns_length, Walk.run_eq, Option.map_some]
  · rw [resolveGguf, Option.map_eq_none_iff, run_start, List.argmax_eq_none,
      List.eq_nil_iff_forall_not_mem]
    exact forall_congr' fun f => not_congr mem_compared
  · intro found h
    obtain ⟨⟨path, t⟩, hrun, rfl⟩ := Option.map_eq_some_iff.mp h
    rw [run_start] at hrun
    obtain ⟨hmem, hmax, -⟩ := List.mem_argmax_iff.mp (Option.mem_def.mpr hrun)
    refine ⟨path, t, mem_compared.mp hmem, rfl, ?_, fun path' t' hreach => ?_⟩
    · rintro text rfl
      exact fromUtf8Lossy_utf8 text
    · exact hmax (path', t') (mem_compared.mpr hreach)

/-! ## Names that are texts -/

/-- What stands before and after the last `d`. -/
theorem last_split {α : Type*} [DecidableEq α] {d : α} (front back : List α) (h : d ∉ back) :
    (front ++ d :: back).reverse.dropWhile (· ≠ d) = d :: front.reverse ∧
      (front ++ d :: back).reverse.takeWhile (· ≠ d) = back.reverse := by
  have hback : ∀ x ∈ back.reverse, decide (x ≠ d) = true := fun x hx =>
    decide_eq_true fun hxd => h (by rw [← hxd]; exact List.mem_reverse.mp hx)
  have hrev : (front ++ d :: back).reverse = back.reverse ++ d :: front.reverse := by simp
  rw [hrev, List.dropWhile_append_of_pos hback, List.takeWhile_append_of_pos hback,
    List.dropWhile_cons_of_neg (by simp), List.takeWhile_cons_of_neg (by simp), List.append_nil]
  exact ⟨rfl, rfl⟩

/-- A list that has a `d` has a last one. -/
theorem exists_last {α : Type*} [DecidableEq α] {d : α} {l : List α} (h : d ∈ l) :
    ∃ front back, l = front ++ d :: back ∧ d ∉ back := by
  obtain ⟨back, front, hl, hback⟩ := List.eq_append_cons_of_mem (List.mem_reverse.mpr h)
  refine ⟨front.reverse, back.reverse, ?_, fun hd => hback (List.mem_reverse.mp hd)⟩
  rw [← List.reverse_reverse l, hl]
  simp

theorem extension_utf8 (name : String) :
    extension (utf8 name.toList) = (LlmCtl.extension name).map fun e => utf8 e.toList := by
  have hdot : (46 : UInt8) = UInt8.ofNat '.'.toNat := rfl
  by_cases hmem : '.' ∈ name.toList
  · obtain ⟨front, back, hname, hback⟩ := exists_last hmem
    have hback' : (46 : UInt8) ∉ utf8 back := fun h => hback ((mem_utf8_iff (by decide)).mp h)
    have hbytes : utf8 name.toList = utf8 front ++ 46 :: utf8 back := by
      rw [hname, utf8_append, utf8_cons, utf8EncodeChar_ascii (by decide), ← hdot]
      rfl
    obtain ⟨hdrop, htake⟩ := last_split front back hback
    obtain ⟨hdrop', htake'⟩ := last_split (utf8 front) (utf8 back) hback'
    rw [extension, LlmCtl.extension, hbytes, hname, hdrop, hdrop', htake, htake',
      List.reverse_reverse, List.reverse_reverse]
    cases front using List.reverseRecOn with
    | nil => rfl
    | append_singleton front c =>
      obtain ⟨b, bs, hb⟩ := List.exists_cons_of_ne_nil
        (List.reverse_ne_nil_iff.mpr (mt utf8_eq_nil_iff.mp (by simp : front ++ [c] ≠ [])))
      rw [hb, List.reverse_append, List.reverse_singleton, List.singleton_append,
        Option.map_some, String.toList_ofList]
  · have hnone : (46 : UInt8) ∉ utf8 name.toList := fun h => hmem ((mem_utf8_iff (by decide)).mp h)
    rw [extension, LlmCtl.extension, dropWhile_reverse_of_notMem hnone,
      dropWhile_reverse_of_notMem hmem]
    rfl

theorem isGguf_utf8 (name : String) :
    isGguf (utf8 name.toList) = decide (LlmCtl.extension name = some "gguf") := by
  have hgguf : [103, 103, 117, 102] = utf8 "gguf".toList := by decide
  rw [isGguf, extension_utf8, hgguf]
  cases LlmCtl.extension name with
  | none => rfl
  | some e =>
    rw [Option.map_some, Bool.eq_iff_iff, beq_iff_eq, decide_eq_true_iff, Option.some_inj,
      Option.some_inj]
    exact ⟨fun h => String.toList_injective (utf8_injective h), fun h => by rw [h]⟩

theorem getLast?_utf8 (cs : List Char) :
    (utf8 cs).getLast? = some 47 ↔ cs.getLast? = some '/' := by
  have hslash : (47 : UInt8) = UInt8.ofNat '/'.toNat := rfl
  cases cs using List.reverseRecOn with
  | nil => simp
  | append_singleton cs c =>
    have hlast : (utf8 (cs ++ [c])).getLast? = (String.utf8EncodeChar c).getLast? := by
      have hone : utf8 [c] = String.utf8EncodeChar c := List.append_nil _
      rw [utf8_append, hone, List.getLast?_append_of_ne_nil _ String.utf8EncodeChar_ne_nil]
    rw [hlast, List.getLast?_concat, Option.some_inj]
    constructor
    · intro h
      have hmem : (47 : UInt8) ∈ utf8 [c] := by
        rw [utf8_cons]
        exact List.mem_append_left _ (List.mem_of_getLast? h)
      exact (List.mem_singleton.mp ((mem_utf8_iff (d := '/') (by decide)).mp hmem)).symm
    · rintro rfl
      rfl

theorem join_utf8 (dir name : String) :
    join (utf8 dir.toList) (utf8 name.toList) = utf8 (joinPath dir name).toList := by
  have hempty : utf8 dir.toList = [] ↔ dir = "" := by
    rw [utf8_eq_nil_iff, String.toList_eq_nil_iff]
  rw [join, joinPath]
  simp only [hempty, getLast?_utf8]
  split
  · rw [String.toList_append, utf8_append]
  · simp [String.join, utf8_cons, utf8EncodeChar_ascii]

/-! ## A cache that can be read -/

mutual

/-- An entry that can be read, with its name as bytes and its time in nanoseconds. -/
def ofEntry : Entry → Node
  | .file name mtime => .file (utf8 name.toList) (some (mtime * 10 ^ 9))
  | .dir name entries => .dir (utf8 name.toList) (ofEntries entries)

def ofEntries : List Entry → List Node
  | [] => []
  | e :: es => ofEntry e :: ofEntries es

end

/-- A directory on the stack. -/
def ofDir (d : String × List Entry) : Dir := ⟨utf8 d.1.toList, some (ofEntries d.2)⟩

/-- A file with its path as bytes. -/
def ofFile (f : GgufFile) : List UInt8 × ℕ := (utf8 f.path.toList, f.mtime)

theorem mtime_seconds (t : ℕ) : mtime (some (t * 10 ^ 9)) = t := by
  have hpos : ¬ (t : ℤ) * 10 ^ 9 < 0 := by omega
  have hdiv : (t : ℤ) * 10 ^ 9 / 10 ^ 9 = t := Int.mul_ediv_cancel _ (by decide)
  simp only [mtime]
  rw [if_neg hpos, hdiv, Int.toNat_natCast]

theorem ggufs_ofDir (dir : String) (es : List Entry) :
    (ofDir (dir, es)).ggufs = (ggufsOf dir es).map ofFile := by
  show (ofEntries es).filterMap (Node.gguf (utf8 dir.toList)) = _
  induction es with
  | nil => rfl
  | cons e es ih =>
    cases e with
    | file name time =>
      have hfile : Node.gguf (utf8 dir.toList) (ofEntry (.file name time))
          = if LlmCtl.extension name = some "gguf" then some (ofFile ⟨joinPath dir name, time⟩)
            else none := by
        rw [ofEntry, Node.gguf, isGguf_utf8, mtime_seconds, join_utf8]
        simp only [decide_eq_true_eq]
        rfl
      by_cases hg : LlmCtl.extension name = some "gguf"
      · have hold : ggufsOf dir (.file name time :: es)
            = ⟨joinPath dir name, time⟩ :: ggufsOf dir es := List.filterMap_cons_some (if_pos hg)
        rw [ofEntries, List.filterMap_cons_some (hfile.trans (if_pos hg)), hold, List.map_cons, ih]
      · have hold : ggufsOf dir (.file name time :: es) = ggufsOf dir es :=
          List.filterMap_cons_none (if_neg hg)
        rw [ofEntries, List.filterMap_cons_none (hfile.trans (if_neg hg)), hold, ih]
    | dir name entries =>
      rw [ofEntries, ofEntry, List.filterMap_cons, Node.gguf, ih]
      rfl

theorem subdirs_ofDir (dir : String) (es : List Entry) :
    (ofDir (dir, es)).subdirs = (LlmCtl.subdirs dir es).map ofDir := by
  show (ofEntries es).filterMap (Node.subdir (utf8 dir.toList)) = _
  induction es with
  | nil => rfl
  | cons e es ih =>
    cases e with
    | file name time =>
      rw [ofEntries, ofEntry, List.filterMap_cons, Node.subdir, ih]
      rfl
    | dir name entries =>
      rw [ofEntries, ofEntry, List.filterMap_cons, Node.subdir, ih, join_utf8]
      rfl

theorem foldl_newer_ofFile (best : Option GgufFile) (fs : List GgufFile) :
    (fs.map ofFile).foldl newer (best.map ofFile)
      = (fs.foldl LlmCtl.newer best).map ofFile := by
  induction fs generalizing best with
  | nil => rfl
  | cons f fs ih =>
    have hnewer : newer (best.map ofFile) (ofFile f) = (LlmCtl.newer best f).map ofFile := by
      cases best with
      | none => rfl
      | some b =>
        show (if b.mtime < f.mtime then some (ofFile f) else some (ofFile b)) = _
        rw [LlmCtl.newer]
        split <;> rfl
    rw [List.map_cons, List.foldl_cons, List.foldl_cons, hnewer, ih]

theorem search_ofDir (best : Option GgufFile) (stack : List (String × List Entry)) :
    forest.search visit (best.map ofFile) (stack.map ofDir)
      = (walk LlmCtl.newer best stack).map ofFile := by
  fun_induction walk LlmCtl.newer best stack with
  | case1 best => rw [List.map_nil, Forest.search]
  | case2 best dir entries stack ih =>
    have hvisit : visit (best.map ofFile) (ofDir (dir, entries))
        = ((ggufsOf dir entries).foldl LlmCtl.newer best).map ofFile := by
      rw [visit, ggufs_ofDir, foldl_newer_ofFile]
    have hpush : forest.push (ofDir (dir, entries)) (stack.map ofDir)
        = ((LlmCtl.subdirs dir entries).reverse ++ stack).map ofDir := by
      rw [List.map_append, List.map_reverse, ← subdirs_ofDir]
      rfl
    rw [List.map_cons, Forest.search, hvisit, hpush, ih]

/-- **Where everything can be read, the walk is the one of `CacheWalk`.** -/
theorem resolveGguf_ofEntries (cache repo : String) (entries : List Entry) :
    resolveGguf cache repo (some (ofEntries entries)) = LlmCtl.resolveGguf cache repo entries := by
  have hwalk : (start cache repo (some (ofEntries entries))).run
      = (walk LlmCtl.newer none [(repoDir cache repo, entries)]).map ofFile := by
    rw [Walk.run_eq, ← search_ofDir]
    rfl
  rw [resolveGguf, hwalk, LlmCtl.resolveGguf, Option.map_map]
  congr 1
  funext f
  exact fromUtf8Lossy_utf8 f.path

end CacheTree

end LlmCtl
