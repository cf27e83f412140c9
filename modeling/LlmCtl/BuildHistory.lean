/-
# The build history on disk (`rebuild.rs`)

The task of a rebuild enters its attempt in the history and saves the whole history: the file is
cut to nothing and written anew in pieces.  A new daemon loads what the file holds, and takes a
text that it cannot read for no history.

The attempts that were recorded survive a restart, except that one whose save was cut off may be
missing, unless the daemon goes down between the cut and the last piece: then all of them are
gone, and the next save makes this last.
-/
import LlmCtl.Rebuild
import LlmCtl.JsonText

namespace LlmCtl

open EventSystem ClaimedRecord

/-! ## The file -/

variable {β : Type}

/-- `load_history`: an unreadable file is no history. -/
def loadHistory (codec : Codec (List BuildRecord) β) (file : Option (List β)) :
    List BuildRecord :=
  (file.bind codec.decode).getD []

/-- A build in the file. -/
def recordFormat : TextFormat BuildRecord Char :=
  ((JsonText.numberComma.after "\x7b\n    \"at\": ".toList).seq
    ((JsonText.nullOrString.after "\n    \"before_sha\": ".toList).seq
      ((JsonText.nullOrString.after ",\n    \"after_sha\": ".toList).seq
        ((JsonText.bool.after ",\n    \"ok\": ".toList).before "\n  \x7d".toList)))).via
    (fun p => some ⟨p.1, p.2.1, p.2.2.1, p.2.2.2⟩)
    (fun r => (r.at_, r.beforeSha, r.afterSha, r.ok)) fun p r =>
      ⟨fun h => by rw [← Option.some.inj h], fun h => by rw [← h]⟩

/-- `builds.json`, as `serde_json::to_string_pretty` prints it. -/
def buildsFormat : TextFormat (List BuildRecord) Char := JsonText.items recordFormat

/-- **What is saved is loaded.** -/
theorem loadHistory_encode (codec : Codec (List BuildRecord) β) (history : List BuildRecord) :
    loadHistory codec (some (codec.encode history)) = history := by
  rw [loadHistory, Option.bind_some, codec.decode_encode, Option.getD_some]

/-- **A torn file is loaded as no history.** -/
theorem loadHistory_torn (codec : Codec (List BuildRecord) β) {history : List BuildRecord}
    {written rest : List β} (h : codec.encode history = written ++ rest) (hrest : rest ≠ []) :
    loadHistory codec (some written) = [] := by
  rw [loadHistory, Option.bind_some, codec.decode_torn h hrest, Option.getD_none]

/-! ## The daemon -/

/-- Where `save_history` is: before `fs::write` cuts the file, or with a text left to write. -/
inductive SavePc (β : Type) where
  | truncate (text : List β)
  | write (rest : List β)

/-- A recorded attempt, and whether its save has come to the end of the text; the code does not
keep the latter. -/
structure Attempt where
  record : BuildRecord
  saved : Bool
  deriving DecidableEq

/-- The rebuild manager, the entry that is saving the history, the file, and the attempts that
have been recorded so far, newest first. -/
structure BuildDaemon (β : Type) where
  manager : RebuildManager
  saving : Option (ℕ × SavePc β)
  file : Option (List β)
  attempts : List Attempt

inductive BuildAct where
  /-- The rebuild manager goes on. -/
  | rebuild (a : JobAct Unit RebuildEnv)
  /-- A task enters its attempt in the history. -/
  | insert (i : ℕ) (now : ℚ)
  /-- `fs::write` cuts the file. -/
  | truncate
  /-- It writes a piece. -/
  | write (n : ℕ)
  /-- `save_history` returns, and the task ends. -/
  | saved
  /-- The daemon goes down, wherever it is, and a new one is started. -/
  | restart

/-- The attempt whose text is written out is saved. -/
def BuildDaemon.settled (d : BuildDaemon β) : List Attempt :=
  match d.saving with
  | some (_, .write []) => d.attempts.modifyHead fun a => { a with saved := true }
  | _ => d.attempts

/-- `RebuildManager::new`. -/
def rebuildsWith (history : List BuildRecord) : RebuildManager := ⟨.idle, history, none, [], 0⟩

/-- The daemon after a restart. -/
def BuildDaemon.restart (codec : Codec (List BuildRecord) β) (d : BuildDaemon β) : BuildDaemon β :=
  ⟨rebuildsWith (loadHistory codec d.file), none, d.file, d.settled⟩

/-- Is this the step that enters an attempt in the history? -/
def entersHistory (m : RebuildManager) : JobAct Unit RebuildEnv → Bool
  | .go i (.next _) =>
    match m.starts[i]? with
    | some ⟨.history _ _ _, _⟩ => true
    | _ => false
  | _ => false

/-- One step.  The task keeps the mutexes of the job and of the history while it saves;
`fs::write` does not fail. -/
def buildStep (codec : Codec (List BuildRecord) β) (d : BuildDaemon β) :
    BuildAct → Option (BuildDaemon β × List Event)
  | .rebuild a =>
    if entersHistory d.manager a then none
    else (rebuilds.step d.manager a).map fun r => ({ d with manager := r.1 }, r.2)
  | .insert i now =>
    match d.saving, d.manager.starts[i]? with
    | none, some ⟨.history beforeSha afterSha ok, _⟩ =>
      let r : BuildRecord := ⟨now, beforeSha, afterSha, ok⟩
      let history := insertBuild d.manager.rest r
      some (⟨d.manager.setRest history, some (i, .truncate (codec.encode history)), d.file,
        ⟨r, false⟩ :: d.attempts⟩, [])
    | _, _ => none
  | .truncate =>
    match d.saving with
    | some (i, .truncate text) =>
      some ({ d with saving := some (i, .write text), file := some [] }, [])
    | _ => none
  | .write n =>
    match d.saving with
    | some (i, .write rest) =>
      some ({ d with
        saving := some (i, .write (rest.drop n)), file := d.file.map (· ++ rest.take n) }, [])
    | _ => none
  | .saved =>
    match d.saving with
    | some (i, .write []) =>
      some (⟨d.manager.unlock.setPc i .ended, none, d.file, d.settled⟩, [])
    | _ => none
  | .restart => some (d.restart codec, [])

/-- The daemon as a system; the first one finds no file. -/
def builds (codec : Codec (List BuildRecord) β) :
    EventSystem (BuildDaemon β) BuildAct Event where
  init := fun d => d = ⟨rebuildsWith [], none, none, []⟩
  step := buildStep codec

/-- Entering the attempt and returning from the save are, together, the step of the rebuild
manager that ends the task. -/
theorem history_step {m : RebuildManager} {i : ℕ} {beforeSha afterSha : Option String} {ok : Bool}
    {claim : ℕ} (hc : m.starts[i]? = some ⟨.history beforeSha afterSha ok, claim⟩) (now : ℚ) :
    rebuilds.step m (.go i (.next now)) =
      some ((m.setRest (insertBuild m.rest ⟨now, beforeSha, afterSha, ok⟩)).unlock.setPc i .ended,
        []) := by
  simp only [rebuilds, JobProgram.system, JobProgram.step, hc]
  rfl

/-! ## The property and its condition -/

/-- The records of the attempts that were saved. -/
def savedRecords (attempts : List Attempt) : List BuildRecord :=
  (attempts.filter Attempt.saved).map Attempt.record

/-- The file holds the twenty latest attempts, newest first and each once, without some whose
save was cut off. -/
def Survives (codec : Codec (List BuildRecord) β) (d : BuildDaemon β) : Prop :=
  ∃ left : List Attempt, (d.attempts.filter Attempt.saved).Sublist left ∧
    left.Sublist d.attempts ∧ loadHistory codec d.file = (left.map Attempt.record).take 20

/-- The file is cut, and its text is not yet written out. -/
def BuildDaemon.torn (d : BuildDaemon β) : Bool :=
  match d.saving with
  | some (_, .write rest) => !rest.isEmpty
  | _ => false

/-- The daemon does not go down with a torn file, unless no attempt was saved before. -/
def NoTornRestart (_ : List Event) (d : BuildDaemon β) : BuildAct → Prop
  | .restart => d.torn = true → ∀ a ∈ d.attempts, a.saved = false
  | _ => True

instance (tr : List Event) (d : BuildDaemon β) (a : BuildAct) :
    Decidable (NoTornRestart tr d a) := by
  unfold NoTornRestart
  split <;> infer_instance

/-! ## The manager does not touch the history before the end of its task -/

theorem rebuildGo_rest {m m' : RebuildManager} {i : ℕ} {c : Start RebuildPc} {e : RebuildEnv}
    {ev : List Event} (hc : ∀ b a ok, c.pc ≠ .history b a ok)
    (h : rebuildGo m i c e = some (m', ev)) : m'.rest = m.rest := by
  unfold rebuildGo at h
  split at h
  · split at h
    · split at h
      · exact absurd h (by simp)
      · split at h
        all_goals
          obtain ⟨rfl, -⟩ := Prod.mk.inj (Option.some.inj h)
          rfl
    · split at h
      · exact absurd h (by simp)
      · obtain ⟨rfl, -⟩ := Prod.mk.inj (Option.some.inj h)
        rfl
    · obtain ⟨rfl, -⟩ := Prod.mk.inj (Option.some.inj h)
      rfl
    · split at h
      · exact absurd h (by simp)
      · obtain ⟨rfl, -⟩ := Prod.mk.inj (Option.some.inj h)
        rfl
    · next hpc => exact absurd hpc (hc _ _ _)
    · exact absurd h (by simp)
  all_goals
    split at h
    · obtain ⟨rfl, -⟩ := Prod.mk.inj (Option.some.inj h)
      rfl
    · obtain ⟨rfl, -⟩ := Prod.mk.inj (Option.some.inj h)
      rfl
    · exact absurd h (by simp)

theorem rebuilds_rest {m m' : RebuildManager} {a : JobAct Unit RebuildEnv} {ev : List Event}
    (ha : entersHistory m a = false) (h : rebuilds.step m a = some (m', ev)) :
    m'.rest = m.rest := by
  simp only [rebuilds, JobProgram.system] at h
  cases a with
  | call req =>
    obtain ⟨rfl, -⟩ := Prod.mk.inj (Option.some.inj h)
    rfl
  | go i e =>
    simp only [JobProgram.step] at h
    split at h
    · next c hc =>
      by_cases hpc : ∃ b a ok, c.pc = .history b a ok
      · obtain ⟨b, a, ok, hpc⟩ := hpc
        obtain ⟨pc, claim⟩ := c
        obtain rfl : pc = .history b a ok := hpc
        cases e with
        | next now =>
          rw [entersHistory, hc] at ha
          exact absurd ha (by simp)
        | sha sha => exact absurd h (by simp [rebuildProgram, rebuildGo])
        | ran ok lines => exact absurd h (by simp [rebuildProgram, rebuildGo])
      · exact rebuildGo_rest (fun b a ok heq => hpc ⟨b, a, ok, heq⟩) h
    · exact absurd h (by simp)
  | drop i =>
    simp only [JobProgram.step] at h
    split at h
    · split at h
      · obtain ⟨rfl, -⟩ := Prod.mk.inj (Option.some.inj h)
        rfl
      · exact absurd h (by simp)
    · exact absurd h (by simp)

/-! ## What is saved -/

section Sound

variable {codec : Codec (List BuildRecord) β} {d d' : BuildDaemon β} {ev : List Event}

/-- The history in memory is what was saved, with the attempt that is being saved in front; and
the file holds it, or as much of it as has been written. -/
inductive BuildsOk (codec : Codec (List BuildRecord) β) (d : BuildDaemon β) : Prop
  | resting (hs : d.saving = none)
      (hrest : d.manager.rest = (savedRecords d.attempts).take 20)
      (hfile : loadHistory codec d.file = d.manager.rest)
  | opening (i : ℕ) (r : BuildRecord) (old : List Attempt)
      (hs : d.saving = some (i, .truncate (codec.encode d.manager.rest)))
      (hold : d.attempts = ⟨r, false⟩ :: old)
      (hrest : d.manager.rest = (r :: savedRecords old).take 20)
      (hfile : loadHistory codec d.file = (savedRecords old).take 20)
  | writing (i : ℕ) (r : BuildRecord) (old : List Attempt) (written rest : List β)
      (hs : d.saving = some (i, .write rest))
      (hold : d.attempts = ⟨r, false⟩ :: old)
      (hrest : d.manager.rest = (r :: savedRecords old).take 20)
      (hfile : d.file = some written)
      (htext : codec.encode d.manager.rest = written ++ rest)

theorem savedRecords_unsaved (r : BuildRecord) (old : List Attempt) :
    savedRecords (⟨r, false⟩ :: old) = savedRecords old := by
  rw [savedRecords, List.filter_cons_of_neg (by simp)]
  rfl

theorem savedRecords_saved (r : BuildRecord) (old : List Attempt) :
    savedRecords (⟨r, true⟩ :: old) = r :: savedRecords old := by
  rw [savedRecords, List.filter_cons_of_pos rfl]
  rfl

/-- Entering a build in the twenty latest ones leaves the twenty latest ones. -/
theorem insertBuild_take (history : List BuildRecord) (r : BuildRecord) :
    insertBuild (history.take 20) r = (r :: history).take 20 := by
  rw [insertBuild, List.take_succ_cons, List.take_succ_cons, List.take_take]
  rfl

/-- A new daemon has what the file holds. -/
theorem buildsOk_restart (h : loadHistory codec d.file = (savedRecords d.settled).take 20) :
    BuildsOk codec (d.restart codec) := .resting rfl h rfl

/-- **A restart that the condition allows loads what was saved.** -/
theorem BuildsOk.restart (h : BuildsOk codec d)
    (hcond : d.torn = true → ∀ a ∈ d.attempts, a.saved = false) :
    BuildsOk codec (d.restart codec) := by
  apply buildsOk_restart
  cases h with
  | resting hs hrest hfile => rw [hfile, hrest, BuildDaemon.settled, hs]
  | opening i r old hs hold hrest hfile =>
    rw [hfile, BuildDaemon.settled, hs, hold, savedRecords_unsaved]
  | writing i r old written rest hs hold hrest hfile htext =>
    cases rest with
    | nil =>
      rw [List.append_nil] at htext
      rw [hfile, ← htext, loadHistory_encode, hrest, BuildDaemon.settled, hs, hold,
        List.modifyHead_cons, savedRecords_saved]
    | cons c rest =>
      -- nothing was saved before, so there is nothing to lose
      have htorn : d.torn = true := by rw [BuildDaemon.torn, hs]; rfl
      have hnone : savedRecords d.settled = [] := by
        have hsettled : d.settled = d.attempts := by rw [BuildDaemon.settled, hs]
        rw [hsettled, savedRecords, List.map_eq_nil_iff, List.filter_eq_nil_iff]
        intro a ha
        rw [hcond htorn a ha]
        exact Bool.false_ne_true
      rw [hfile, loadHistory_torn codec htext (List.cons_ne_nil c rest), hnone, List.take_nil]

/-- **Every step that the condition allows keeps what was saved.** -/
theorem BuildsOk.step {a : BuildAct} {tr : List Event} (h : BuildsOk codec d)
    (ha : NoTornRestart tr d a) (hs : buildStep codec d a = some (d', ev)) : BuildsOk codec d' := by
  cases a with
  | rebuild a =>
    simp only [buildStep] at hs
    split at hs
    · exact absurd hs (by simp)
    · next henters =>
      obtain ⟨⟨m, evs⟩, hm, heq⟩ := Option.map_eq_some_iff.mp hs
      obtain ⟨rfl, -⟩ := Prod.mk.inj heq
      have hsame : m.rest = d.manager.rest := rebuilds_rest (by simpa using henters) hm
      cases h with
      | resting hs hrest hfile => exact .resting hs (hsame.trans hrest) (hfile.trans hsame.symm)
      | opening i r old hs hold hrest hfile =>
        refine .opening i r old ?_ hold (hsame.trans hrest) hfile
        show d.saving = some (i, .truncate (codec.encode m.rest))
        rw [hsame, hs]
      | writing i r old written rest hs hold hrest hfile htext =>
        refine .writing i r old written rest hs hold (hsame.trans hrest) hfile ?_
        show codec.encode m.rest = written ++ rest
        rw [hsame, htext]
  | insert i now =>
    simp only [buildStep] at hs
    split at hs
    · next hnone _ =>
      obtain ⟨rfl, -⟩ := Prod.mk.inj (Option.some.inj hs)
      cases h with
      | resting _ hrest hfile =>
        refine .opening i _ d.attempts rfl rfl ?_ (hfile.trans hrest)
        show insertBuild d.manager.rest _ = _
        rw [hrest, insertBuild_take]
      | opening _ _ _ hs => exact absurd (hnone.symm.trans hs) (by simp)
      | writing _ _ _ _ _ hs => exact absurd (hnone.symm.trans hs) (by simp)
    · exact absurd hs (by simp)
  | truncate =>
    simp only [buildStep] at hs
    split at hs
    · next i text hsaving =>
      obtain ⟨rfl, -⟩ := Prod.mk.inj (Option.some.inj hs)
      cases h with
      | resting hs => exact absurd (hsaving.symm.trans hs) (by simp)
      | opening j r old hs hold hrest hfile =>
        obtain ⟨rfl, htext⟩ : i = j ∧ text = codec.encode d.manager.rest := by
          simpa using hsaving.symm.trans hs
        exact .writing i r old [] text rfl hold hrest rfl (by rw [htext, List.nil_append])
      | writing _ _ _ _ _ hs => exact absurd (hsaving.symm.trans hs) (by simp)
    · exact absurd hs (by simp)
  | write n =>
    simp only [buildStep] at hs
    split at hs
    · next i rest hsaving =>
      obtain ⟨rfl, -⟩ := Prod.mk.inj (Option.some.inj hs)
      cases h with
      | resting hs => exact absurd (hsaving.symm.trans hs) (by simp)
      | opening _ _ _ hs => exact absurd (hsaving.symm.trans hs) (by simp)
      | writing j r old written rest' hs hold hrest hfile htext =>
        obtain ⟨rfl, rfl⟩ : i = j ∧ rest = rest' := by simpa using hsaving.symm.trans hs
        refine .writing i r old (written ++ rest.take n) (rest.drop n) rfl hold hrest ?_ ?_
        · show d.file.map _ = _
          rw [hfile]
          rfl
        · rw [List.append_assoc, List.take_append_drop, ← htext]
    · exact absurd hs (by simp)
  | saved =>
    simp only [buildStep] at hs
    split at hs
    · next i hsaving =>
      obtain ⟨rfl, -⟩ := Prod.mk.inj (Option.some.inj hs)
      cases h with
      | resting hs => exact absurd (hsaving.symm.trans hs) (by simp)
      | opening _ _ _ hs => exact absurd (hsaving.symm.trans hs) (by simp)
      | writing j r old written rest hs hold hrest hfile htext =>
        obtain ⟨rfl, rfl⟩ : i = j ∧ [] = rest := by simpa using hsaving.symm.trans hs
        rw [List.append_nil] at htext
        refine .resting rfl ?_ ?_
        · show d.manager.rest = (savedRecords d.settled).take 20
          rw [hrest, BuildDaemon.settled, hs, hold, List.modifyHead_cons, savedRecords_saved]
        · show loadHistory codec d.file = d.manager.rest
          rw [hfile, ← htext, loadHistory_encode]
    · exact absurd hs (by simp)
  | restart =>
    obtain ⟨rfl, -⟩ := Prod.mk.inj (Option.some.inj hs)
    exact h.restart ha

theorem buildsOk_of_run {tr : List Event} (h : (builds codec).Run NoTornRestart tr d) :
    BuildsOk codec d := by
  refine h.invariant (I := fun _ d => BuildsOk codec d) ?_ ?_
  · rintro d rfl
    exact .resting rfl rfl rfl
  · intro tr d a d' ev _ ha hs hok
    exact hok.step ha hs

/-- What was saved survives, and nothing else is made up. -/
theorem survives_of_load (h : loadHistory codec d.file = (savedRecords d.attempts).take 20) :
    Survives codec d := ⟨_, List.Sublist.refl _, List.filter_sublist, h⟩

end Sound

/-! ## Results -/

/-- **The build history survives a restart just if the daemon does not go down with a torn
file**, or had not saved any attempt before. -/
theorem history_survives_iff (codec : Codec (List BuildRecord) β) {tr : List Event}
    {d : BuildDaemon β} (h : (builds codec).Run NoTornRestart tr d) :
    Survives codec (d.restart codec) ↔ (d.torn = true → ∀ a ∈ d.attempts, a.saved = false) := by
  have hok := buildsOk_of_run h
  constructor
  · intro hsurvives htorn a ha
    obtain ⟨left, hsaved, -, hload⟩ := hsurvives
    cases hok with
    | resting hs => exact absurd htorn (by rw [BuildDaemon.torn, hs]; simp)
    | opening _ _ _ hs => exact absurd htorn (by rw [BuildDaemon.torn, hs]; simp)
    | writing i r old written rest hs hold hrest hfile htext =>
      cases rest with
      | nil => exact absurd htorn (by rw [BuildDaemon.torn, hs]; simp)
      | cons c rest =>
        have hempty : loadHistory codec d.file = [] := by
          rw [hfile, loadHistory_torn codec htext (List.cons_ne_nil c rest)]
        have hleft : left = [] := by
          have htake := hload.symm.trans hempty
          rw [List.take_eq_nil_iff, List.map_eq_nil_iff] at htake
          exact htake.resolve_left (by decide)
        have hsettled : (d.restart codec).attempts = d.attempts := by
          show d.settled = d.attempts
          rw [BuildDaemon.settled, hs]
        rw [hleft, hsettled, List.sublist_nil, List.filter_eq_nil_iff] at hsaved
        exact Bool.eq_false_iff.mpr (hsaved a ha)
  · intro hcond
    cases hok.restart hcond with
    | resting _ hrest hfile => exact survives_of_load (hfile.trans hrest)
    | opening _ _ _ hs => exact absurd hs (by simp [BuildDaemon.restart])
    | writing _ _ _ _ _ hs => exact absurd hs (by simp [BuildDaemon.restart])

/-! ## Runs -/

/-- A rebuild by entry `i`, up to the history. -/
def rebuildBy (i : ℕ) (now : ℚ) : List BuildAct :=
  .rebuild (.call ()) ::
    [.next now, .sha (some "a1"), .next now, .next now, .ran true [], .ran true [],
      .sha (some "b2"), .next now].map fun e => .rebuild (.go i e)

/-- Its attempt is entered, and the file is cut. -/
def recordBy (i : ℕ) (now : ℚ) : List BuildAct :=
  rebuildBy i now ++ [.insert i now, .truncate]

/-- The text is written in two pieces, and the task ends. -/
def writeOut : List BuildAct := [.write 10, .write 1000, .saved]

/-- The record of such a rebuild. -/
def builtAt (now : ℚ) : BuildRecord := ⟨now, some "a1", some "b2", true⟩

/-- Two attempts, and a restart before the file is cut for the second one. -/
theorem history_survives_iff_restart :
    ∃ tr d, (builds buildsFormat.codec).Run NoTornRestart tr d ∧ d.torn = false ∧
      d.attempts = [⟨builtAt 2, false⟩, ⟨builtAt 1, true⟩] ∧
      Survives buildsFormat.codec (d.restart buildsFormat.codec) := by
  obtain ⟨tr, d, h, hp⟩ := Run.reaches (builds buildsFormat.codec) NoTornRestart
    (recordBy 0 1 ++ writeOut ++ rebuildBy 1 2 ++ [.insert 1 2])
    (fun _ d => decide (d.torn = false ∧
      d.attempts = [⟨builtAt 2, false⟩, ⟨builtAt 1, true⟩])) rfl (by decide)
    (by decide)
  obtain ⟨htorn, hattempts⟩ := of_decide_eq_true hp
  refine ⟨tr, d, h, htorn, hattempts, (history_survives_iff buildsFormat.codec h).mpr ?_⟩
  rw [htorn]
  exact fun h => absurd h Bool.false_ne_true

/-- **A restart with a torn file loses every attempt**: the one of the first rebuild, saved long
before, is gone, and the save of a third one makes this last. -/
theorem torn_history_is_lost :
    ¬ ∀ tr d, (builds buildsFormat.codec).Run Anything tr d →
      Survives buildsFormat.codec (d.restart buildsFormat.codec) := by
  intro hall
  obtain ⟨tr, d, h, hp⟩ := Run.reaches (builds buildsFormat.codec) Anything
    (recordBy 0 1 ++ writeOut ++ recordBy 1 2 ++ [.write 10, .restart] ++ recordBy 0 3 ++ writeOut)
    (fun _ d => decide ((d.restart buildsFormat.codec).attempts
        = [⟨builtAt 3, true⟩, ⟨builtAt 2, false⟩, ⟨builtAt 1, true⟩] ∧
      loadHistory buildsFormat.codec d.file = [builtAt 3])) rfl (admits_anything _ _ _)
    (by decide)
  obtain ⟨hattempts, hload⟩ := of_decide_eq_true hp
  obtain ⟨left, hsaved, -, hleft⟩ := hall tr d h
  have hone : ((left.map Attempt.record).take 20).length = 1 := by
    rw [← hleft]
    exact congrArg List.length hload
  have htwo : 2 ≤ left.length := by
    have hlen := hsaved.length_le
    rw [hattempts] at hlen
    exact hlen
  rw [List.length_take, List.length_map] at hone
  omega

end LlmCtl
