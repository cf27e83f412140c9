/-
# What a download registers (`download.rs`)

A download job that ends well has registered the file that it found: the id is derived from the
name of the file, and a model with this id is added unless there is one already.

An id that is taken is reported as registered whatever file it stands for, and the switch
`hf.autoregister` is never looked at.
-/
import LlmCtl.JobWatchdog

namespace LlmCtl

open EventSystem ListTable ClaimedRecord

/-! ## What a job does, as it is observed -/

/-- Is there a model with this id? -/
def Registry.knows (r : Registry) (id : String) : Bool := r.models.any fun x => x.id == id

/-- What can be seen of the jobs: the claim of a job, with the registry at that time, the end of
its command, what was found in the cache, and the file that is registered, with whether its id is
new. -/
inductive JobFact where
  | claimed (before : Registry)
  | exited (exit : Option ExitStatus)
  | found (path : Option String)
  | registered (path : String) (new : Bool)

/-- What a step of `start` or its task shows. -/
def factsOf (unicode : Char → Bool) (m : DownloadManager) : DownloadPc → DownloadEnv → List JobFact
  | .claim _ _, .next _ => if m.job.status = .running then [] else [.claimed m.rest]
  | .child _, .exited exit _ => [.exited exit]
  | .resolve _, .resolved path => [.found path]
  | .register _ path, .persisted _ =>
    [.registered path (!m.rest.knows (deriveId unicode path))]
  | _, _ => []

def jobFacts (unicode : Char → Bool) (m : DownloadManager) :
    JobAct HfDownloadReq DownloadEnv → List JobFact
  | .go i e => ((m.starts[i]?).map fun c => factsOf unicode m c.pc e).getD []
  | _ => []

/-- The download manager, of which the jobs are observed. -/
def observedDownloads (hf : Hf) (unicode : Char → Bool) :
    EventSystem DownloadManager (JobAct HfDownloadReq DownloadEnv) JobFact :=
  (downloads hf unicode).observe (jobFacts unicode)

/-- What is known of the job that was claimed last: the registry before it, how its command
ended, and what it found. -/
structure JobStory where
  before : Registry
  exit : Option ExitStatus
  path : Option String

def story : List JobFact → Option JobStory
  | [] => none
  | .claimed before :: _ => some ⟨before, none, none⟩
  | .exited exit :: tr => (story tr).map fun s => { s with exit := exit }
  | .found path :: tr => (story tr).map fun s => { s with path := path }
  | .registered _ _ :: tr => story tr

/-- The command ended without an error. -/
def JobStory.succeeded (s : JobStory) : Bool := s.exit.any ExitStatus.success

/-- The files that were registered, with their ids, newest first. -/
def registrations (unicode : Char → Bool) : List JobFact → List (String × String)
  | [] => []
  | .registered path _ :: tr => (deriveId unicode path, path) :: registrations unicode tr
  | _ :: tr => registrations unicode tr

/-- The ids of the models that were added, newest first. -/
def addedIds (unicode : Char → Bool) : List JobFact → List String
  | [] => []
  | .registered path true :: tr => deriveId unicode path :: addedIds unicode tr
  | _ :: tr => addedIds unicode tr

/-! ## The end of a job -/

/-- The registry after a file was registered. -/
def Registry.register (unicode : Char → Bool) (r : Registry) (repo path : String)
    (written : Bool) : Registry :=
  if r.knows (deriveId unicode path) then r
  else r.add (deriveId unicode path) path ("hf: " ++ repo) written

/-- The outcome of a job, from what it met. -/
def Outcome (unicode : Char → Bool) (s : JobStory) (job : DownloadJob) (after : Registry) : Prop :=
  match s.succeeded, s.path with
  | true, some path =>
    job.status = .ok ∧ job.registered = some (deriveId unicode path) ∧
      ∃ repo written, after = s.before.register unicode repo path written
  | _, _ => job.status = .failed ∧ after = s.before

/-- What the program point of a task says about its job. -/
def DownloadPc.Tells (s : JobStory) : DownloadPc → Prop
  | .spawn _ | .spawnFailed _ | .child _ => s.exit = none ∧ s.path = none
  | .finish _ exit _ => s.exit = exit ∧ s.path = none
  | .resolve _ => s.succeeded = true ∧ s.path = none
  | .register _ path => s.succeeded = true ∧ s.path = some path
  | _ => True

/-- **The job is known**: at its beginning there is none, a running one has left the registry as
it was, and one at its end has the outcome that it met. -/
inductive Told (unicode : Char → Bool) (tr : List JobFact) (m : DownloadManager) : Prop
  | idle (h : m.job.status = .idle)
  | running (h : m.job.status = .running) (s : JobStory) (hs : story tr = some s)
      (hbefore : m.rest = s.before)
      (hpc : ∀ (i : ℕ) (c : Start DownloadPc), m.starts[i]? = some c → c.pc.holds = true →
        c.pc.Tells s)
  | finished (s : JobStory) (hs : story tr = some s) (ho : Outcome unicode s m.job m.rest)
      (h : m.job.over)

/-! ## Every step keeps the job known -/

section Told

variable {hf : Hf} {unicode : Char → Bool} {m m₀ m' : DownloadManager} {i : ℕ}
  {c : Start DownloadPc} {tr : List JobFact} {ev : List Event}

/-- Whoever works under a claim is entry `i`. -/
def OnlyHolder (m : DownloadManager) (i : ℕ) : Prop :=
  ∀ (j : ℕ) (d : Start DownloadPc), m.starts[j]? = some d → d.pc.holds = true → j = i

/-- The entry that holds the claim goes on, and no other entry holds it. -/
theorem pc_of_onlyHolder (honly : OnlyHolder m i) (hc : m.starts[i]? = some c)
    (hstarts : m₀.starts = m.starts) {pc : DownloadPc} {j : ℕ} {d : Start DownloadPc}
    (hd : (m₀.setPc i pc).starts[j]? = some d) (hholds : d.pc.holds = true) : d.pc = pc := by
  rw [JobManager.setPc, hstarts] at hd
  rcases (updates_modify hc).cases hd with ⟨-, rfl⟩ | ⟨hji, hd⟩
  · rfl
  · exact absurd (honly j d hd hholds) hji

/-- An entry that does not hold the claim goes on, and the claim stays where it is. -/
theorem holder_of_setPc (hc : m.starts[i]? = some c) {pc : DownloadPc}
    (hpc : pc.holds = false) {j : ℕ} {d : Start DownloadPc}
    (hd : (m.setPc i pc).starts[j]? = some d) (hholds : d.pc.holds = true) :
    m.starts[j]? = some d := by
  rcases (updates_modify hc).cases hd with ⟨-, rfl⟩ | ⟨-, hd⟩
  · exact absurd (hpc.symm.trans hholds) Bool.false_ne_true
  · exact hd

/-- A step that leaves the job, the registry and the claim alone. -/
theorem Told.keep (h : Told unicode tr m) (hjob : m'.job = m.job) (hrest : m'.rest = m.rest)
    (hholder : ∀ (j : ℕ) (d : Start DownloadPc), m'.starts[j]? = some d → d.pc.holds = true →
      m.starts[j]? = some d) : Told unicode tr m' := by
  cases h with
  | idle h => exact .idle (by rw [hjob, h])
  | running h s hs hbefore hpc =>
    exact .running (by rw [hjob, h]) s hs (hrest.trans hbefore) fun j d hd hh =>
      hpc j d (hholder j d hd hh) hh
  | finished s hs ho h =>
    exact .finished s hs (by rw [hjob, hrest]; exact ho) (by rw [hjob]; exact h)

/-- The job of an entry that holds the claim is running, and its program point tells of it. -/
theorem Told.of_holder (h : Told unicode tr m) (hrunning : m.job.running = true)
    (hc : m.starts[i]? = some c) (hholds : c.pc.holds = true) :
    ∃ s, story tr = some s ∧ m.rest = s.before ∧ c.pc.Tells s := by
  have hstatus : m.job.status = .running := of_decide_eq_true hrunning
  cases h with
  | idle h => exact absurd (hstatus.symm.trans h) (by decide)
  | running h s hs hbefore hpc => exact ⟨s, hs, hbefore, hpc i c hc hholds⟩
  | finished s hs ho h =>
    rcases h with h | h
    · exact absurd (hstatus.symm.trans h) (by decide)
    · exact absurd (hstatus.symm.trans h) (by decide)

/-- The holder of the claim goes on. -/
theorem Told.go_on (m₀ : DownloadManager) (honly : OnlyHolder m i) (hc : m.starts[i]? = some c)
    (hstarts : m₀.starts = m.starts) (hstatus : m₀.job.status = .running) {s : JobStory}
    (hs : story tr = some s) (hbefore : m₀.rest = s.before) {pc : DownloadPc}
    (htells : pc.Tells s) : Told unicode tr (m₀.setPc i pc) := by
  refine .running hstatus s hs hbefore fun j d hd hholds => ?_
  rw [pc_of_onlyHolder honly hc hstarts hd hholds]
  exact htells

theorem registerStep_rest (unicode : Char → Bool) (m : DownloadManager) (i : ℕ)
    (c : Start DownloadPc) (repo path : String) (written : Bool) :
    (registerStep unicode m i c repo path written).1.rest
      = m.rest.register unicode repo path written := by
  show (if (!m.rest.knows (deriveId unicode path)) = true then _ else m.rest) = _
  rw [Registry.register]
  cases m.rest.knows (deriveId unicode path) <;> rfl

/-- A section under the manager's lock keeps the job known. -/
theorem Told.locked (h : Told unicode tr m) (hc : m.starts[i]? = some c)
    (hrunning : ∀ (j : ℕ) (d : Start DownloadPc), m.starts[j]? = some d → d.pc.holds = true →
      m.job.running = true)
    (honly : c.pc.holds = true → OnlyHolder m i) {now : ℚ}
    (hs : downloadGo hf unicode m i c (.next now) = some (m', ev)) :
    Told unicode (factsOf unicode m c.pc (.next now) ++ tr) m' := by
  obtain ⟨pc, claim⟩ := c
  have hrun : pc.holds = true → m.job.status = .running :=
    fun hholds => of_decide_eq_true (hrunning i _ hc hholds)
  have hstory := fun hholds => h.of_holder (hrunning i _ hc hholds) hc hholds
  simp only [downloadGo] at hs
  split at hs
  · -- the call comes in
    split at hs
    · obtain ⟨rfl, -⟩ := Prod.mk.inj (Option.some.inj hs)
      exact h.keep rfl rfl fun j d hd hh => holder_of_setPc hc rfl hd hh
    · obtain ⟨rfl, -⟩ := Prod.mk.inj (Option.some.inj hs)
      exact h.keep rfl rfl fun j d hd hh => holder_of_setPc hc rfl hd hh
  · obtain ⟨-, hs⟩ := free_of_section hs
    split at hs
    · next hbusy =>
      obtain ⟨rfl, -⟩ := Prod.mk.inj (Option.some.inj hs)
      rw [factsOf, if_pos hbusy]
      exact h.keep rfl rfl fun j d hd hh => holder_of_setPc hc rfl hd hh
    · next repo included hfree =>
      obtain ⟨rfl, -⟩ := Prod.mk.inj (Option.some.inj hs)
      rw [factsOf, if_neg hfree]
      refine .running rfl ⟨m.rest, none, none⟩ rfl rfl fun j d hd hholds => ?_
      rcases (updates_modify hc).cases hd with ⟨-, rfl⟩ | ⟨-, hd⟩
      · exact ⟨rfl, rfl⟩
      · exact absurd (of_decide_eq_true (hrunning j d hd hholds)) hfree
  · obtain ⟨-, hs⟩ := free_of_section hs
    obtain ⟨rfl, -⟩ := Prod.mk.inj (Option.some.inj hs)
    obtain ⟨s, hs, hbefore, hexit, hpath⟩ := hstory rfl
    refine .finished s hs ?_ (.inr rfl)
    rw [Outcome, JobStory.succeeded, hexit]
    exact ⟨rfl, hbefore⟩
  · next repo exit log =>
    obtain ⟨-, hs⟩ := free_of_section hs
    obtain ⟨s, hs', hbefore, hexit, hpath⟩ := hstory rfl
    split at hs
    · next hexit' =>
      obtain ⟨rfl, -⟩ := Prod.mk.inj (Option.some.inj hs)
      have htells : DownloadPc.Tells s (.resolve repo) :=
        ⟨by rw [JobStory.succeeded, hexit, hexit'], hpath⟩
      exact Told.go_on ((m.lock i).setJob (m.job.collected now log)) (honly rfl) hc rfl (hrun rfl)
        hs' hbefore htells
    · next hexit' =>
      obtain ⟨rfl, -⟩ := Prod.mk.inj (Option.some.inj hs)
      have hfailed : s.succeeded = false := by
        rw [JobStory.succeeded, hexit]
        exact Bool.eq_false_iff.mpr hexit'
      refine .finished s hs' ?_ (.inr rfl)
      rw [Outcome, hfailed]
      exact ⟨rfl, hbefore⟩
  · exact absurd hs (by simp)

/-- **A step of `start` or its task keeps the job known.** -/
theorem Told.go (h : Told unicode tr m) (hc : m.starts[i]? = some c)
    (hrunning : ∀ (j : ℕ) (d : Start DownloadPc), m.starts[j]? = some d → d.pc.holds = true →
      m.job.running = true)
    (honly : c.pc.holds = true → OnlyHolder m i) {e : DownloadEnv}
    (hs : downloadGo hf unicode m i c e = some (m', ev)) :
    Told unicode (factsOf unicode m c.pc e ++ tr) m' := by
  obtain ⟨pc, claim⟩ := c
  have hrun : pc.holds = true → m.job.status = .running :=
    fun hholds => of_decide_eq_true (hrunning i _ hc hholds)
  have hstory := fun hholds => h.of_holder (hrunning i _ hc hholds) hc hholds
  cases e with
  | next now => exact h.locked hc hrunning honly hs
  | spawned =>
    simp only [downloadGo] at hs
    split at hs
    · obtain ⟨rfl, -⟩ := Prod.mk.inj (Option.some.inj hs)
      obtain ⟨s, hs, hbefore, htells⟩ := hstory rfl
      exact Told.go_on m (honly rfl) hc rfl (hrun rfl) hs hbefore htells
    · exact absurd hs (by simp)
  | spawnError e =>
    simp only [downloadGo] at hs
    split at hs
    · obtain ⟨rfl, -⟩ := Prod.mk.inj (Option.some.inj hs)
      obtain ⟨s, hs, hbefore, htells⟩ := hstory rfl
      exact Told.go_on m (honly rfl) hc rfl (hrun rfl) hs hbefore htells
    · exact absurd hs (by simp)
  | exited exit lines =>
    simp only [downloadGo] at hs
    split at hs
    · obtain ⟨rfl, -⟩ := Prod.mk.inj (Option.some.inj hs)
      obtain ⟨s, hs, hbefore, -, hpath⟩ := hstory rfl
      refine Told.go_on (s := { s with exit := exit }) m (honly rfl) hc rfl (hrun rfl) ?_ hbefore
        ⟨rfl, hpath⟩
      rw [factsOf, List.singleton_append, story, hs, Option.map_some]
    · exact absurd hs (by simp)
  | resolved path =>
    simp only [downloadGo] at hs
    split at hs
    · next repo =>
      obtain ⟨s, hs', hbefore, hexit, -⟩ := hstory rfl
      have hnext : story (factsOf unicode m (.resolve repo) (.resolved path) ++ tr)
          = some { s with path := path } := by
        rw [factsOf, List.singleton_append, story, hs', Option.map_some]
      split at hs
      · obtain ⟨rfl, -⟩ := Prod.mk.inj (Option.some.inj hs)
        exact Told.go_on m (honly rfl) hc rfl (hrun rfl) hnext hbefore ⟨hexit, rfl⟩
      · obtain ⟨rfl, -⟩ := Prod.mk.inj (Option.some.inj hs)
        refine .finished _ hnext ?_ (.inr rfl)
        have hsame : JobStory.succeeded { s with path := none } = true := hexit
        rw [Outcome, hsame]
        exact ⟨rfl, hbefore⟩
    · exact absurd hs (by simp)
  | persisted written =>
    simp only [downloadGo] at hs
    split at hs
    · next repo path =>
      obtain ⟨rfl, -⟩ := Prod.mk.inj (Option.some.inj hs)
      obtain ⟨s, hs, hbefore, hexit, hpath⟩ := hstory rfl
      refine .finished s hs ?_ (.inl rfl)
      rw [Outcome, hexit, hpath]
      rw [← hbefore]
      exact ⟨rfl, rfl, repo, written, registerStep_rest unicode m i ⟨.register repo path, claim⟩
        repo path written⟩
    · exact absurd hs (by simp)

/-- **Every job of a run is known.** -/
theorem told_of_run (h : (observedDownloads hf unicode).Run Anything tr m) :
    Told unicode tr m := by
  refine h.invariant (I := fun tr m => Told unicode tr m) ?_ ?_
  · rintro m ⟨hjob, -⟩
    exact .idle (by rw [hjob]; rfl)
  · intro tr m a m' ev hr _ hs htold
    obtain ⟨rfl, ev', hs⟩ := observe_step hs
    obtain ⟨tr', hr⟩ := hr.of_observe
    have hp := downloadProgram_sound hf unicode
    cases a with
    | call req =>
      obtain ⟨rfl, -⟩ := Prod.mk.inj (Option.some.inj hs)
      refine htold.keep rfl rfl fun j d hd hholds => ?_
      rcases getElem?_concat_cases hd with hd | ⟨-, rfl⟩
      · exact hd
      · exact absurd hholds Bool.false_ne_true
    | go i e =>
      simp only [downloads, JobProgram.system, JobProgram.step] at hs
      split at hs
      · next c hc =>
        rw [jobFacts, hc, Option.map_some, Option.getD_some]
        exact htold.go hc (fun j d hd hholds => hp.running_of_holds hr hd hholds)
          (fun hholds j d hd hdj => hp.unique hr hd hc hdj hholds) hs
      · exact absurd hs (by simp)
    | drop i =>
      simp only [downloads, JobProgram.system, JobProgram.step] at hs
      split at hs
      · next c hc =>
        split at hs
        · obtain ⟨rfl, -⟩ := Prod.mk.inj (Option.some.inj hs)
          exact htold.keep rfl rfl fun j d hd hh => holder_of_setPc hc rfl hd hh
        · exact absurd hs (by simp)
      · exact absurd hs (by simp)

end Told

/-! ## The registry along a run -/

/-- What an id must stand for when a file is registered under it: no other file. -/
def Registry.Free (r : Registry) (id path : String) : Prop :=
  ∀ x ∈ r.models, x.id = id → x.model = path

instance (r : Registry) (id path : String) : Decidable (r.Free id path) :=
  inferInstanceAs (Decidable (∀ x ∈ r.models, x.id = id → x.model = path))

/-- The id stands for this file: a model has it with this path, and none with another one. -/
def Registry.Stands (r : Registry) (id path : String) : Prop :=
  (∃ x ∈ r.models, x.id = id ∧ x.model = path) ∧ r.Free id path

section Registry

variable {unicode : Char → Bool} {r : Registry} {id path : String}

theorem Registry.knows_iff : r.knows id = true ↔ ∃ x ∈ r.models, x.id = id := by
  simp only [knows, List.any_eq_true, beq_iff_eq]

/-- **A registered id stands for its file just if it stood for no other one.** -/
theorem Registry.register_stands_iff (repo : String) (written : Bool) :
    (r.register unicode repo path written).Stands (deriveId unicode path) path ↔
      r.Free (deriveId unicode path) path := by
  cases hknows : r.knows (deriveId unicode path) with
  | true =>
    rw [register, if_pos hknows]
    refine ⟨fun h => h.2, fun h => ⟨?_, h⟩⟩
    obtain ⟨x, hx, hid⟩ := knows_iff.mp hknows
    exact ⟨x, hx, hid, h x hx hid⟩
  | false =>
    rw [register, if_neg (by rw [hknows]; exact Bool.false_ne_true)]
    have hnew : ∀ x ∈ r.models, x.id ≠ deriveId unicode path := fun x hx hid => by
      rw [knows_iff.mpr ⟨x, hx, hid⟩] at hknows
      exact absurd hknows (by simp)
    constructor
    · exact fun _ x hx hid => absurd hid (hnew x hx)
    · refine fun _ => ⟨⟨_, List.mem_append_right _ (List.mem_singleton_self _), rfl, rfl⟩, ?_⟩
      intro x hx hid
      rcases List.mem_append.mp hx with hx | hx
      · exact absurd hid (hnew x hx)
      · rw [List.mem_singleton.mp hx]

/-- What an id stands for does not change with another file. -/
theorem Registry.Stands.register (h : r.Stands id path) (repo other : String) (written : Bool) :
    (r.register unicode repo other written).Stands id path := by
  obtain ⟨⟨y, hy, hid, hpath⟩, hfree⟩ := h
  cases hknows : r.knows (deriveId unicode other) with
  | true =>
    rw [Registry.register, if_pos hknows]
    exact ⟨⟨y, hy, hid, hpath⟩, hfree⟩
  | false =>
    rw [Registry.register, if_neg (by rw [hknows]; exact Bool.false_ne_true)]
    refine ⟨⟨y, List.mem_append_left _ hy, hid, hpath⟩, fun x hx hxid => ?_⟩
    rcases List.mem_append.mp hx with hx | hx
    · exact hfree x hx hxid
    · -- the added id is not known, while this one is
      obtain rfl := List.mem_singleton.mp hx
      have hknown : r.knows (deriveId unicode other) = true :=
        knows_iff.mpr ⟨y, hy, hid.trans hxid.symm⟩
      exact absurd (hknows.symm.trans hknown) Bool.false_ne_true

/-- Is this the registration of a file? -/
def JobFact.isRegistration : JobFact → Bool
  | .registered _ _ => true
  | _ => false

theorem registrations_append {ev tr : List JobFact} (h : ∀ f ∈ ev, f.isRegistration = false) :
    registrations unicode (ev ++ tr) = registrations unicode tr := by
  refine ignores_append fun f hf before => ?_
  cases f with
  | registered path new => exact absurd (h _ hf) (by simp [JobFact.isRegistration])
  | _ => rfl

theorem addedIds_append {ev tr : List JobFact} (h : ∀ f ∈ ev, f.isRegistration = false) :
    addedIds unicode (ev ++ tr) = addedIds unicode tr := by
  refine ignores_append fun f hf before => ?_
  cases f with
  | registered path new => exact absurd (h _ hf) (by simp [JobFact.isRegistration])
  | _ => rfl

/-- What a step of the manager does to the registry: nothing, or it registers a file. -/
inductive RestStep (unicode : Char → Bool) (m : DownloadManager)
    (a : JobAct HfDownloadReq DownloadEnv) (m' : DownloadManager) : Prop
  | same (hrest : m'.rest = m.rest) (hev : ∀ f ∈ jobFacts unicode m a, f.isRegistration = false)
  | registers (i : ℕ) (repo path : String) (claim : ℕ) (written : Bool)
      (ha : a = .go i (.persisted written))
      (hc : m.starts[i]? = some ⟨.register repo path, claim⟩)
      (hrest : m'.rest = m.rest.register unicode repo path written)
      (hev : jobFacts unicode m a
        = [.registered path (!m.rest.knows (deriveId unicode path))])

/-- Only the last step of a task touches the registry. -/
theorem downloadGo_rest {hf : Hf} {m m' : DownloadManager} {i : ℕ} {c : Start DownloadPc}
    {e : DownloadEnv} {ev : List Event} (he : ∀ written, e ≠ .persisted written)
    (hs : downloadGo hf unicode m i c e = some (m', ev)) : m'.rest = m.rest := by
  cases e with
  | next now =>
    simp only [downloadGo] at hs
    split at hs
    · split at hs
      all_goals
        obtain ⟨rfl, -⟩ := Prod.mk.inj (Option.some.inj hs)
        rfl
    · obtain ⟨-, hs⟩ := free_of_section hs
      split at hs
      all_goals
        obtain ⟨rfl, -⟩ := Prod.mk.inj (Option.some.inj hs)
        rfl
    · obtain ⟨-, hs⟩ := free_of_section hs
      obtain ⟨rfl, -⟩ := Prod.mk.inj (Option.some.inj hs)
      rfl
    · obtain ⟨-, hs⟩ := free_of_section hs
      split at hs
      all_goals
        obtain ⟨rfl, -⟩ := Prod.mk.inj (Option.some.inj hs)
        rfl
    · exact absurd hs (by simp)
  | resolved path =>
    simp only [downloadGo] at hs
    split at hs
    · split at hs
      all_goals
        obtain ⟨rfl, -⟩ := Prod.mk.inj (Option.some.inj hs)
        rfl
    · exact absurd hs (by simp)
  | persisted written => exact absurd rfl (he written)
  | _ =>
    simp only [downloadGo] at hs
    split at hs
    · obtain ⟨rfl, -⟩ := Prod.mk.inj (Option.some.inj hs)
      rfl
    · exact absurd hs (by simp)

theorem not_registration_of_factsOf {m : DownloadManager} {pc : DownloadPc} {e : DownloadEnv}
    (he : ∀ written, e ≠ .persisted written) {f : JobFact} (h : f ∈ factsOf unicode m pc e) :
    f.isRegistration = false := by
  unfold factsOf at h
  split at h
  · split at h
    · exact absurd h List.not_mem_nil
    · rw [List.mem_singleton.mp h]
      rfl
  · rw [List.mem_singleton.mp h]
    rfl
  · rw [List.mem_singleton.mp h]
    rfl
  · exact absurd rfl (he _)
  · exact absurd h List.not_mem_nil

theorem restStep_of_step {hf : Hf} {m m' : DownloadManager} {a : JobAct HfDownloadReq DownloadEnv}
    {ev : List Event} (hs : (downloads hf unicode).step m a = some (m', ev)) :
    RestStep unicode m a m' := by
  cases a with
  | call req =>
    obtain ⟨rfl, -⟩ := Prod.mk.inj (Option.some.inj hs)
    exact .same rfl fun f hf => absurd hf List.not_mem_nil
  | drop i =>
    simp only [downloads, JobProgram.system, JobProgram.step] at hs
    split at hs
    · split at hs
      · obtain ⟨rfl, -⟩ := Prod.mk.inj (Option.some.inj hs)
        exact .same rfl fun f hf => absurd hf List.not_mem_nil
      · exact absurd hs (by simp)
    · exact absurd hs (by simp)
  | go i e =>
    simp only [downloads, JobProgram.system, JobProgram.step] at hs
    split at hs
    · next c hc =>
      obtain ⟨pc, claim⟩ := c
      have hfacts : jobFacts unicode m (.go i e) = factsOf unicode m pc e := by
        rw [jobFacts, hc, Option.map_some, Option.getD_some]
      replace hs : downloadGo hf unicode m i ⟨pc, claim⟩ e = some (m', ev) := hs
      cases e with
      | persisted written =>
        simp only [downloadGo] at hs
        split at hs
        · next repo path =>
          obtain ⟨rfl, -⟩ := Prod.mk.inj (Option.some.inj hs)
          exact .registers i repo path claim written rfl hc
            (registerStep_rest unicode m i ⟨.register repo path, claim⟩ repo path written) hfacts
        · exact absurd hs (by simp)
      | _ =>
        refine .same (downloadGo_rest (fun w h => by cases h) hs) fun f hf => ?_
        rw [hfacts] at hf
        exact not_registration_of_factsOf (fun w h => by cases h) hf
    · exact absurd hs (by simp)

/-- The registry is what it was at the beginning, and the models that were added, each under an id
of its own. -/
def AddedOnce (unicode : Char → Bool) (tr : List JobFact) (m : DownloadManager) : Prop :=
  ∃ initial added, m.rest.models = initial ++ added ∧
    added.map Model.id = (addedIds unicode tr).reverse ∧ (addedIds unicode tr).Nodup

theorem addedOnce_of_run {hf : Hf} {tr : List JobFact} {m : DownloadManager}
    (h : (observedDownloads hf unicode).Run Anything tr m) : AddedOnce unicode tr m := by
  refine h.invariant (I := fun tr m => AddedOnce unicode tr m) ?_ ?_
  · exact fun m _ => ⟨m.rest.models, [], by rw [List.append_nil], rfl, List.nodup_nil⟩
  · rintro tr m a m' ev - - hs ⟨initial, added, hmodels, hids, hnodup⟩
    obtain ⟨rfl, ev', hs⟩ := observe_step hs
    rcases restStep_of_step hs with ⟨hrest, hev⟩ | ⟨i, repo, path, claim, written, -, -, hrest, hev⟩
    · rw [AddedOnce, addedIds_append hev, hrest]
      exact ⟨initial, added, hmodels, hids, hnodup⟩
    · rw [AddedOnce, hev, hrest, Registry.register]
      cases hknows : m.rest.knows (deriveId unicode path) with
      | true => exact ⟨initial, added, by rw [if_pos rfl, hmodels], hids, hnodup⟩
      | false =>
        refine ⟨initial, added ++ [⟨deriveId unicode path, path, false, "hf: " ++ repo⟩],
          ?_, ?_, ?_⟩
        · rw [if_neg Bool.false_ne_true, Registry.add, hmodels, List.append_assoc]
        · rw [List.map_append, hids]
          exact List.reverse_cons.symm
        · -- a known id would be one of those that were added
          refine List.nodup_cons.mpr ⟨fun hmem => ?_, hnodup⟩
          have hmem' : deriveId unicode path ∈ added.map Model.id := by
            rw [hids]
            exact List.mem_reverse.mpr hmem
          obtain ⟨x, hx, hid⟩ := List.mem_map.mp hmem'
          have hknown : m.rest.knows (deriveId unicode path) = true :=
            Registry.knows_iff.mpr ⟨x, by rw [hmodels]; exact List.mem_append_right _ hx, hid⟩
          exact absurd (hknows.symm.trans hknown) Bool.false_ne_true

/-- Every file that was registered is what its id stands for, and no two have one id. -/
structure FilesStand (unicode : Char → Bool) (tr : List JobFact) (m : DownloadManager) : Prop where
  stands : ∀ id path, (id, path) ∈ registrations unicode tr → m.rest.Stands id path
  apart : ∀ id p q, (id, p) ∈ registrations unicode tr → (id, q) ∈ registrations unicode tr → p = q

/-- The id of the file that the task is about to register stands for no other file. -/
def DownloadPc.IdFree (unicode : Char → Bool) (r : Registry) : DownloadPc → Prop
  | .register _ path => r.Free (deriveId unicode path) path
  | _ => True

instance (unicode : Char → Bool) (r : Registry) (pc : DownloadPc) :
    Decidable (pc.IdFree unicode r) :=
  match pc with
  | .register _ path => inferInstanceAs (Decidable (r.Free (deriveId unicode path) path))
  | .enter _ | .claim _ _ | .spawn _ | .spawnFailed _ | .child _ | .finish _ _ _ | .resolve _
  | .ended | .refused _ | .dropped => .isTrue trivial

/-- A file is registered only under an id that stands for no other file. -/
def FreeIds (unicode : Char → Bool) (_ : List JobFact) (m : DownloadManager) :
    JobAct HfDownloadReq DownloadEnv → Prop
  | .go i (.persisted _) =>
    ∀ c ∈ m.starts[i]?, DownloadPc.IdFree unicode m.rest (Start.pc c)
  | _ => True

instance (unicode : Char → Bool) (tr : List JobFact) (m : DownloadManager)
    (a : JobAct HfDownloadReq DownloadEnv) : Decidable (FreeIds unicode tr m a) :=
  match a with
  | .go i (.persisted _) =>
    inferInstanceAs (Decidable (∀ c ∈ m.starts[i]?, DownloadPc.IdFree unicode m.rest (Start.pc c)))
  | .go _ (.next _) | .go _ .spawned | .go _ (.spawnError _) | .go _ (.exited _ _)
  | .go _ (.resolved _) | .call _ | .drop _ => .isTrue trivial

theorem filesStand_of_stands {tr : List JobFact} {m : DownloadManager}
    (h : ∀ id path, (id, path) ∈ registrations unicode tr → m.rest.Stands id path) :
    FilesStand unicode tr m := by
  refine ⟨h, fun id p q hp hq => ?_⟩
  obtain ⟨⟨x, hx, hid, hpath⟩, -⟩ := h id p hp
  exact hpath.symm.trans ((h id q hq).2 x hx hid)

theorem filesStand_of_run {hf : Hf} {tr : List JobFact} {m : DownloadManager}
    (h : (observedDownloads hf unicode).Run (FreeIds unicode) tr m) : FilesStand unicode tr m := by
  refine h.invariant (I := fun tr m => FilesStand unicode tr m) ?_ ?_
  · exact fun m _ => filesStand_of_stands fun _ _ hmem => absurd hmem List.not_mem_nil
  · intro tr m a m' ev _ hfree hs hstand
    obtain ⟨rfl, ev', hs⟩ := observe_step hs
    apply filesStand_of_stands
    intro id path hmem
    rcases restStep_of_step hs with ⟨hrest, hev⟩ |
      ⟨i, repo, other, claim, written, rfl, hc, hrest, hev⟩
    · rw [registrations_append hev] at hmem
      rw [hrest]
      exact hstand.stands id path hmem
    · rw [hrest]
      rw [hev] at hmem
      rcases List.mem_cons.mp hmem with heq | hmem
      · obtain ⟨rfl, rfl⟩ := Prod.mk.inj heq
        exact (Registry.register_stands_iff repo written).mpr (hfree _ hc)
      · exact (hstand.stands id path hmem).register repo other written

end Registry

/-! ## The id stands for the file -/

/-- At the end of a job that went well, the id that it reports stands for the file that it
found. -/
def RegisteredFile (tr : List JobFact) (m : DownloadManager) : Prop :=
  ∀ s path id, story tr = some s → s.path = some path → m.job.registered = some id →
    m.rest.Stands id path

/-- Before the job, the id of the file that it found stood for no other file. -/
def IdWasFree (unicode : Char → Bool) (tr : List JobFact) : Prop :=
  ∀ s path, story tr = some s → s.path = some path →
    s.before.Free (deriveId unicode path) path

theorem Told.of_ok {unicode : Char → Bool} {tr : List JobFact} {m : DownloadManager}
    (h : Told unicode tr m) (hok : m.job.status = .ok) :
    ∃ s path repo written, story tr = some s ∧ s.succeeded = true ∧ s.path = some path ∧
      m.job.registered = some (deriveId unicode path) ∧
      m.rest = s.before.register unicode repo path written := by
  cases h with
  | idle h => exact absurd (hok.symm.trans h) (by decide)
  | running h => exact absurd (hok.symm.trans h) (by decide)
  | finished s hs ho h =>
    unfold Outcome at ho
    split at ho
    · next path hsucc hpath =>
      obtain ⟨-, hid, repo, written, hrest⟩ := ho
      exact ⟨s, path, repo, written, hs, hsucc, hpath, hid, hrest⟩
    · exact absurd (hok.symm.trans ho.1) (by decide)

/-- **A job registers its file just if the id of the file was free.**  The models that jobs add
have ids of their own in every run; and if every id is free when it is registered, every file
that was registered stays what its id stands for. -/
theorem registered_file_iff (hf : Hf) (unicode : Char → Bool) :
    (∀ tr m, (observedDownloads hf unicode).Run Anything tr m →
      AddedOnce unicode tr m ∧
        (m.job.status = .ok → (RegisteredFile tr m ↔ IdWasFree unicode tr))) ∧
      ∀ tr m, (observedDownloads hf unicode).Run (FreeIds unicode) tr m →
        FilesStand unicode tr m := by
  refine ⟨fun tr m h => ⟨addedOnce_of_run h, fun hok => ?_⟩, fun tr m h => filesStand_of_run h⟩
  obtain ⟨s, path, repo, written, hs, -, hpath, hid, hrest⟩ := (told_of_run h).of_ok hok
  have hstands : (s.before.register unicode repo path written).Stands (deriveId unicode path) path ↔
      s.before.Free (deriveId unicode path) path := Registry.register_stands_iff repo written
  constructor
  · intro hreg s' path' hs' hpath'
    obtain rfl := Option.some.inj (hs.symm.trans hs')
    obtain rfl := Option.some.inj (hpath.symm.trans hpath')
    have hstand := hreg s path _ hs hpath hid
    rw [hrest] at hstand
    exact hstands.mp hstand
  · intro hfree s' path' id hs' hpath' hid'
    obtain rfl := Option.some.inj (hs.symm.trans hs')
    obtain rfl := Option.some.inj (hpath.symm.trans hpath')
    obtain rfl := Option.some.inj (hid.symm.trans hid')
    rw [hrest]
    exact hstands.mpr (hfree s path hs hpath)

theorem observedDownloads_init (hf : Hf) (unicode : Char → Bool) :
    (observedDownloads hf unicode).init newDownloads := ⟨rfl, rfl, rfl, rfl⟩

/-- A download by entry `i`, whose command succeeds and whose file is found. -/
def downloadBy (i : ℕ) (path : String) : List (JobAct HfDownloadReq DownloadEnv) :=
  .call ⟨"org/model", none⟩ ::
    [.next 1, .next 1, .spawned, .exited (some ⟨some 0⟩) [], .next 2, .resolved (some path),
      .persisted true].map fun e => .go i e

/-- Two downloads of files with different names. -/
theorem registered_file_iff_two :
    ∃ tr m, (observedDownloads plainHf asciiOnly).Run (FreeIds asciiOnly) tr m ∧
      m.job.status = .ok ∧ FilesStand asciiOnly tr m ∧ RegisteredFile tr m ∧
      registrations asciiOnly tr = [("b-q8", "/hub/B-Q8.gguf"), ("a-q4", "/hub/A-Q4.gguf")] := by
  obtain ⟨tr, m, h, hp⟩ := Run.reaches (observedDownloads plainHf asciiOnly) (FreeIds asciiOnly)
    (downloadBy 0 "/hub/A-Q4.gguf" ++ downloadBy 1 "/hub/B-Q8.gguf")
    (fun tr m => decide (m.job.status = .ok ∧
      registrations asciiOnly tr = [("b-q8", "/hub/B-Q8.gguf"), ("a-q4", "/hub/A-Q4.gguf")] ∧
      (story tr).map (fun s => s.before.models.map Model.id) = some ["a-q4"] ∧
      (story tr).bind JobStory.path = some "/hub/B-Q8.gguf"))
    (observedDownloads_init _ _) (by decide) (by decide)
  obtain ⟨hok, hreg, hids, hpath⟩ := of_decide_eq_true hp
  obtain ⟨hiff, hstand⟩ := registered_file_iff plainHf asciiOnly
  have hany := h.mono fun _ _ _ _ => trivial
  refine ⟨tr, m, h, hok, hstand tr m h, ((hiff tr m hany).2 hok).mpr ?_, hreg⟩
  intro s path hs hpath' x hx hid
  rw [hs, Option.bind_some, hpath'] at hpath
  rw [hs, Option.map_some, Option.some.injEq] at hids
  have hmem : x.id ∈ ["a-q4"] := hids ▸ List.mem_map_of_mem hx
  rw [hid, Option.some.inj hpath] at hmem
  exact absurd hmem (by decide)

/-- **Files of two repositories share an id**: the second download reports the id of the first,
and the registry does not have its file. -/
theorem second_file_not_registered :
    ¬ ∀ tr m, (observedDownloads plainHf asciiOnly).Run Anything tr m → m.job.status = .ok →
      RegisteredFile tr m := by
  intro hall
  obtain ⟨tr, m, h, hp⟩ := Run.reaches (observedDownloads plainHf asciiOnly) Anything
    (downloadBy 0 "/hub/models--a--m/snapshots/1/M.gguf" ++
      downloadBy 1 "/hub/models--b--m/snapshots/1/m.gguf")
    (fun tr m => decide (m.job.status = .ok ∧ m.job.registered = some "m" ∧
      (story tr).bind JobStory.path = some "/hub/models--b--m/snapshots/1/m.gguf" ∧
      m.rest.models.map Model.model = ["/hub/models--a--m/snapshots/1/M.gguf"]))
    (observedDownloads_init _ _) (admits_anything _ _ _) (by decide)
  obtain ⟨hok, hid, hpath, hmodels⟩ := of_decide_eq_true hp
  obtain ⟨s, hs, hpath⟩ := Option.bind_eq_some_iff.mp hpath
  obtain ⟨⟨x, hx, -, hmodel⟩, -⟩ := hall tr m h hok s _ "m" hs hpath hid
  have hmem : x.model ∈ ["/hub/models--a--m/snapshots/1/M.gguf"] :=
    hmodels ▸ List.mem_map_of_mem hx
  rw [hmodel] at hmem
  exact absurd hmem (by decide)

/-! ## When the registry changes -/

/-- The command succeeded and a file was found whose id is not known. -/
def JobStory.FoundNew (unicode : Char → Bool) (s : JobStory) : Prop :=
  s.succeeded = true ∧ ∃ path, s.path = some path ∧
    s.before.knows (deriveId unicode path) = false

/-- **What a job should do to the registry and the file**: one model is added if the command
succeeded, a file was found, `hf.autoregister` is set and the id is new; else nothing changes. -/
def ChangesWhenDue (hf : Hf) (unicode : Char → Bool) (s : JobStory) (after : Registry) : Prop :=
  (s.FoundNew unicode ∧ hf.autoregister = true →
      ∃ x, after.models = s.before.models ++ [x]) ∧
    (¬ (s.FoundNew unicode ∧ hf.autoregister = true) → after = s.before)

/-- What a job does: one model is added if a new file was found, whatever the switch says. -/
theorem Outcome.changes {unicode : Char → Bool} {s : JobStory} {job : DownloadJob}
    {after : Registry} (h : Outcome unicode s job after) :
    (s.FoundNew unicode → ∃ x, after.models = s.before.models ++ [x]) ∧
      (¬ s.FoundNew unicode → after = s.before) := by
  unfold Outcome at h
  split at h
  · next path hsucc hpath =>
    obtain ⟨-, -, repo, written, rfl⟩ := h
    rw [Registry.register]
    constructor
    · rintro ⟨-, path', hpath', hnew⟩
      obtain rfl := Option.some.inj (hpath.symm.trans hpath')
      rw [if_neg (by rw [hnew]; exact Bool.false_ne_true)]
      exact ⟨_, rfl⟩
    · intro hold
      refine if_pos ?_
      by_contra hnew
      exact hold ⟨hsucc, path, hpath, by simpa using hnew⟩
  · next hnot =>
    refine ⟨fun hfound => ?_, fun _ => h.2⟩
    obtain ⟨hsucc, path, hpath, -⟩ := hfound
    exact absurd hpath (hnot path hsucc)

/-- **A job changes the registry when it should just if `hf.autoregister` is set, or there is
nothing to register.**  While it runs it changes nothing. -/
theorem changes_when_due_iff (hf : Hf) (unicode : Char → Bool) (tr : List JobFact)
    (m : DownloadManager) (h : (observedDownloads hf unicode).Run Anything tr m) (s : JobStory)
    (hs : story tr = some s) :
    (m.job.status = .running → m.rest = s.before) ∧
      (m.job.over → (ChangesWhenDue hf unicode s m.rest ↔
        (hf.autoregister = true ∨ ¬ s.FoundNew unicode))) := by
  cases told_of_run h with
  | idle hidle =>
    refine ⟨fun hr => absurd (hr.symm.trans hidle) (by decide), fun hover => ?_⟩
    rcases hover with hover | hover <;> exact absurd (hover.symm.trans hidle) (by decide)
  | running hr s' hs' hbefore hpc =>
    obtain rfl := Option.some.inj (hs.symm.trans hs')
    refine ⟨fun _ => hbefore, fun hover => ?_⟩
    rcases hover with hover | hover <;> exact absurd (hover.symm.trans hr) (by decide)
  | finished s' hs' ho hover =>
    obtain rfl := Option.some.inj (hs.symm.trans hs')
    obtain ⟨hadds, hkeeps⟩ := ho.changes
    refine ⟨fun hr => ?_, fun _ => ⟨fun hdue => ?_, fun hcond => ?_⟩⟩
    · rcases hover with hover | hover <;> exact absurd (hr.symm.trans hover) (by decide)
    · by_contra hcond
      obtain ⟨hoff, hfound⟩ := not_or.mp hcond
      obtain ⟨x, hx⟩ := hadds (not_not.mp hfound)
      rw [hdue.2 fun hdue => hoff hdue.2] at hx
      exact absurd (congrArg List.length hx) (by simp)
    · refine ⟨fun hdue => hadds hdue.1, fun hnot => ?_⟩
      rcases hcond with hon | hnone
      · exact hkeeps fun hfound => hnot ⟨hfound, hon⟩
      · exact hkeeps hnone

/-- With the switch set, a download adds its model. -/
theorem changes_when_due_iff_on :
    ∃ tr m s, (observedDownloads { plainHf with autoregister := true } asciiOnly).Run Anything
        tr m ∧ story tr = some s ∧ m.rest.models.map Model.id = ["a-q4"] ∧
      ChangesWhenDue { plainHf with autoregister := true } asciiOnly s m.rest := by
  obtain ⟨tr, m, h, hp⟩ := Run.reaches
    (observedDownloads { plainHf with autoregister := true } asciiOnly) Anything
    (downloadBy 0 "/hub/A-Q4.gguf")
    (fun tr m => decide (m.job.status = .ok ∧ (story tr).isSome = true ∧
      m.rest.models.map Model.id = ["a-q4"]))
    (observedDownloads_init _ _) (admits_anything _ _ _) (by decide)
  obtain ⟨hok, hsome, hids⟩ := of_decide_eq_true hp
  obtain ⟨s, hs⟩ := Option.isSome_iff_exists.mp hsome
  refine ⟨tr, m, s, h, hs, hids, ?_⟩
  exact ((changes_when_due_iff _ asciiOnly tr m h s hs).2 (.inl hok)).mpr (.inl rfl)

/-- **The switch is not looked at**: with `hf.autoregister` unset a download adds its model. -/
theorem registers_without_switch :
    ¬ ∀ tr m s, (observedDownloads plainHf asciiOnly).Run Anything tr m → story tr = some s →
      m.job.over → ChangesWhenDue plainHf asciiOnly s m.rest := by
  intro hall
  obtain ⟨tr, m, h, hp⟩ := Run.reaches (observedDownloads plainHf asciiOnly) Anything
    (downloadBy 0 "/hub/A-Q4.gguf")
    (fun tr m => decide (m.job.status = .ok ∧
      (story tr).map (fun s => s.before.models.length) = some 0 ∧ m.rest.models.length = 1))
    (observedDownloads_init _ _) (admits_anything _ _ _) (by decide)
  obtain ⟨hok, hbefore, hafter⟩ := of_decide_eq_true hp
  obtain ⟨s, hs, hlen⟩ := Option.map_eq_some_iff.mp hbefore
  have hsame := (hall tr m s h hs (.inl hok)).2 fun hdue => Bool.false_ne_true hdue.2
  rw [hsame, hlen] at hafter
  exact absurd hafter (by decide)

end LlmCtl
