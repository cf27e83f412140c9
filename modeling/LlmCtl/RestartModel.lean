/-
# Which model an automatic restart revives

`maybe_restart` clones the model before it waits for `lifecycle` and looks only at the
status again once it owns it.  A `start_model` that runs during the wait selects another
model; if its worker has crashed too by then, the old model is revived.  In every run in
which the selection is still the one from before the wait whenever the second look finds
a crash, restarts revive the selected model.
-/
import LlmCtl.SingleWorker

namespace LlmCtl

open EventSystem

/-! ## The property -/

/-- The model that `start_model`, or `main` at startup, selected last. -/
def selection : List Event → Option Model
  | [] => none
  | .spawning .maybeRestart _ :: tr => selection tr
  | .spawning _ m :: _ => some m
  | _ :: tr => selection tr

/-- Restarts launch the selected model, which is also the recorded one. -/
structure RevivesSelected (tr : List Event) (s : Sup) : Prop where
  launches : Each (fun before e => ∀ i m, e = .launched .maybeRestart i m →
    selection before = some m) tr
  recorded : s.st.model = selection tr

/-! ## The condition -/

/-- Does the owner of `lifecycle` move? -/
def Act.isRun : Act → Bool
  | .run => true
  | _ => false

/-- Is the owner at the second look of `maybe_restart`? -/
def Crit.isRecheck : Crit → Bool
  | .recheck _ => true
  | _ => false

/-- The model that was selected when `maybe_restart` decided on its last restart. -/
def selectionBeforeWait : List Event → Option Model
  | [] => none
  | .restartWanted :: tr => selection tr
  | _ :: tr => selectionBeforeWait tr

/-- When `maybe_restart` finds a crash under the lock, no `start_model` that ran during its
wait has switched to another model. -/
def NoSwitch (tr : List Event) (s : Sup) (a : Act) : Prop :=
  a.isRun = true → s.st.status.isCrashed = true → s.holder.any Crit.isRecheck = true →
    selection tr = selectionBeforeWait tr

instance (tr : List Event) (s : Sup) (a : Act) : Decidable (NoSwitch tr s a) :=
  inferInstanceAs (Decidable (a.isRun = true → s.st.status.isCrashed = true →
    s.holder.any Crit.isRecheck = true → selection tr = selectionBeforeWait tr))

/-! ## The wait -/

/-- A restart of `m` waits for `lifecycle`, or is at its second look. -/
def Sup.Waits (s : Sup) (m : Model) : Prop :=
  .maybeRestart m ∈ s.queue ∨ s.holder = some (.recheck m)

theorem selectionBeforeWait_append {ev tr : List Event} (h : .restartWanted ∉ ev) :
    selectionBeforeWait (ev ++ tr) = selectionBeforeWait tr := by
  apply ignores_append
  intro e he before
  cases e with
  | restartWanted => exact absurd he h
  | _ => rfl

/-- Nobody is taken for a waiting restart before the poller decides on the first one. -/
theorem Sup.RestartOk.not_waits {s : Sup} (h : s.RestartOk) (hp : s.poller.isRestarting = false)
    (m : Model) : ¬ s.Waits m := by
  have hnone : s.restartsPending = 0 := by
    rw [show s.restartsPending = s.poller.isRestarting.toNat from h, hp]
    rfl
  obtain ⟨hq, hh⟩ := Nat.add_eq_zero_iff.mp hnone
  rintro (hmem | hc)
  · exact absurd rfl (List.countP_eq_zero.mp hq _ hmem)
  · simp [hc, Crit.isPoller] at hh

/-- A step that leaves the second look alone, and whose new waiters are not restarts. -/
theorem waits_of_frame {s s' : Sup} {m : Model} (h : s'.Waits m)
    (hq : ∀ m, .maybeRestart m ∈ s'.queue → .maybeRestart m ∈ s.queue)
    (hh : ∀ m, s'.holder = some (.recheck m) → s.holder = some (.recheck m)) : s.Waits m :=
  h.imp (hq m) (hh m)

/-- No step leads back to the second look. -/
theorem CritMove.ne_recheck {s : Sup} {c c' : Crit} (hm : CritMove s c c') (m : Model) :
    c' ≠ .recheck m := by
  cases hm <;> simp

/-- **A restart begins to wait in the section that decides on it**, and in no other. -/
theorem Step.waits {cfg : Config} {s s' : Sup} {a : Act} {ev : List Event}
    (hs : Step cfg s a ev s') :
    (∃ m, s.poller = .want ∧ s.st.model = some m ∧ ev = [.restartWanted] ∧
      ∀ m', s'.Waits m' → m' = m ∨ s.Waits m') ∨
    (.restartWanted ∉ ev ∧ ∀ m, s'.Waits m → s.Waits m) := by
  cases hs with
  | want m hp hm hw =>
    refine .inl ⟨m, hp, hm, rfl, fun m' hwait => ?_⟩
    rcases hwait with hmem | hc
    · rcases List.mem_append.mp hmem with hold | hnew
      · exact .inr (.inl hold)
      · exact .inl (by simpa using hnew)
    · exact .inr (.inr hc)
  | call w hw hm =>
    refine .inr ⟨by simp, fun m h => waits_of_frame h (fun m hmem => ?_) fun _ => id⟩
    rcases List.mem_append.mp hmem with hold | hnew
    · exact hold
    · obtain rfl : w = .maybeRestart m := by simpa [eq_comm] using hnew
      exact absurd hw (by simp [Waiter.isHandler])
  | dropWaiting n w hn hw =>
    exact .inr ⟨by simp, fun m h =>
      waits_of_frame h (fun _ => List.mem_of_mem_eraseIdx) fun _ => id⟩
  | grant w ws hh hq =>
    refine .inr ⟨by simp, fun m h => .inl ?_⟩
    rw [hq]
    rcases h with hmem | hc
    · exact List.mem_cons_of_mem w hmem
    · cases w with
      | maybeRestart m' =>
        obtain rfl : m' = m := by simpa [Waiter.entry] using hc
        exact List.mem_cons_self
      | _ => exact absurd hc (by simp [Waiter.entry])
  | drained hm hh =>
    refine .inr ⟨by simp, fun m h => waits_of_frame h (fun m hmem => ?_) fun _ => id⟩
    simpa using hmem
  | move c c' hc hm =>
    exact .inr ⟨by simp, fun m h =>
      waits_of_frame h (fun _ => id) fun m hc' => absurd (Option.some.inj hc') (hm.ne_recheck m)⟩
  | finish caller hc =>
    refine .inr ⟨by cases caller <;> simp [afterStop], fun m h =>
      waits_of_frame h (fun _ => by simp) fun m hc' => ?_⟩
    cases caller <;> simp [afterStop] at hc'
  | spawnReturn | failed | record =>
    exact .inr ⟨fun hmem => absurd (spawnReturned_events _ _ _ _ _ hmem) (by simp), fun m h =>
      waits_of_frame h (fun _ => by simp) fun _ => by simp⟩
  | count m hc =>
    refine .inr ⟨fun hmem => absurd (countStep_events m _ hmem) (by simp), fun m' h =>
      waits_of_frame h (fun _ => ?_) fun _ hc' => ?_⟩
    · rcases countStep_cases s m cfg with ⟨heq, -⟩ | ⟨heq, -⟩ <;> rw [heq] <;> exact id
    · rcases countStep_holder s m cfg with hfree | hstop
      · exact absurd (hfree.symm.trans hc') (by simp)
      · exact absurd (hstop.symm.trans hc') (by simp)
  | _ =>
    exact .inr ⟨by simp, fun m h => waits_of_frame h (fun _ => by simp) fun _ => by simp⟩

/-! ## The invariant -/

/-- The model that a restart past its second look is going to launch. -/
def Crit.reviving : Crit → Option Model
  | .count m | .stopInner (.maybeRestart m) _ | .spawn .maybeRestart m _ => some m
  | _ => none

/-- The recorded model is the selected one, and so is the one being revived. -/
structure Faithful (tr : List Event) (s : Sup) : Prop where
  recorded : s.st.model = selection tr
  reviving : ∀ m ∈ s.holder.bind Crit.reviving, selection tr = some m

/-- A restart that waits is one of the model that was selected before its wait. -/
def WaitsFor (tr : List Event) (s : Sup) : Prop :=
  ∀ m, s.Waits m → selectionBeforeWait tr = some m

theorem Step.waitsFor {cfg : Config} {s s' : Sup} {a : Act} {tr ev : List Event}
    (hs : Step cfg s a ev s') (hro : s.RestartOk) (hrecorded : s.st.model = selection tr)
    (h : WaitsFor tr s) : WaitsFor (ev ++ tr) s' := by
  intro m hm
  rcases hs.waits with ⟨m', hp, hmodel, rfl, hwaits⟩ | ⟨hev, hwaits⟩
  · rcases hwaits m hm with rfl | hold
    · exact hrecorded.symm.trans hmodel
    · exact absurd hold (hro.not_waits (by simp [hp, Poller.isRestarting]) m)
  · rw [selectionBeforeWait_append hev]
    exact h m (hwaits m hm)

theorem selection_append {ev tr : List Event} (h : ∀ e ∈ ev, e.isSpawning = false) :
    selection (ev ++ tr) = selection tr := by
  apply ignores_append
  intro e he before
  cases e with
  | spawning caller m => exact absurd (h _ he) (by simp [Event.isSpawning])
  | _ => rfl

/-- A step that announces nothing and revives nothing new. -/
theorem Faithful.moved {tr ev : List Event} {s s' : Sup} (h : Faithful tr s)
    (hev : ∀ e ∈ ev, e.isSpawning = false) (hm : s'.st.model = s.st.model)
    (hr : ∀ m ∈ s'.holder.bind Crit.reviving, m ∈ s.holder.bind Crit.reviving) :
    Faithful (ev ++ tr) s' := by
  refine ⟨?_, fun m hmem => ?_⟩
  · rw [hm, selection_append hev, h.recorded]
  · rw [selection_append hev]
    exact h.reviving m (hr m hmem)

/-- The second look is the only way into a revival. -/
theorem CritMove.reviving {s : Sup} {c c' : Crit} (hm : CritMove s c c') :
    c'.reviving = c.reviving ∨
      ∃ m, c = .recheck m ∧ c' = .count m ∧ s.st.status.isCrashed = true := by
  cases hm with
  | recheck m hcr => exact .inr ⟨m, rfl, rfl, hcr⟩
  | readPid caller | noPid caller | graceOver caller | sleep caller | slept caller
  | gone caller => cases caller <;> exact .inl rfl
  | begin caller => cases caller <;> exact .inl rfl
  | _ => exact .inl rfl

theorem Step.faithful {cfg : Config} {s s' : Sup} {a : Act} {tr ev : List Event}
    (hs : Step cfg s a ev s') (hok : NoSwitch tr s a) (hwaits : WaitsFor tr s)
    (h : Faithful tr s) : Faithful (ev ++ tr) s' := by
  cases hs with
  | waitSection i c hc hw => exact h.moved (by simp) (by simp) fun _ => id
  | dropHolder c hc hh ha => exact h.moved (by simp) rfl (by simp)
  | grant w ws hh hq =>
    refine h.moved (by simp [Event.isSpawning]) rfl fun m hmem => ?_
    cases w <;> exact absurd hmem (by simp [Waiter.entry, Crit.reviving])
  | move c c' hc hm =>
    rcases hm.reviving with heq | ⟨m, rfl, rfl, hcr⟩
    · refine h.moved (by simp) rfl fun m hmem => ?_
      simpa [hc, heq] using hmem
    · refine ⟨h.recorded, fun m' hmem => ?_⟩
      obtain rfl : m = m' := by simpa [Crit.reviving] using hmem
      rw [List.nil_append, hok rfl hcr (by simp [hc, Crit.isRecheck])]
      exact hwaits m (.inr hc)
  | running m hc => exact h.moved (by simp [Event.isSpawning]) rfl (by simp)
  | setStopping caller pid hc =>
    exact h.moved (by simp) rfl (by cases caller <;> simp [hc, Crit.reviving])
  | term caller pid hc | termFails caller pid hc =>
    exact h.moved (by simp [Event.isSpawning]) rfl
      (by cases caller <;> simp [hc, Crit.reviving])
  | kill caller pid hc | killFails caller pid hc =>
    exact h.moved (by simp [Event.isSpawning]) rfl
      (by cases caller <;> simp [hc, Crit.reviving])
  | finish caller hc =>
    refine h.moved ?_ (by simp) ?_
    · cases caller <;> simp [afterStop, Event.isSpawning]
    · cases caller <;> simp [hc, afterStop, Crit.reviving]
  | reset m hc =>
    exact h.moved (by simp [Event.isSpawning]) rfl (by simp [Crit.reviving])
  | spawnReturn caller m ok pc hc hpc =>
    exact h.moved (spawnReturned_isSpawning _ _ _ _) (by simp) (by simp)
  | begin caller m hc =>
    cases caller with
    | maybeRestart =>
      have hsel : selection tr = some m := h.reviving m (by simp [hc, Crit.reviving])
      refine ⟨hsel.symm, fun m' hmem => ?_⟩
      obtain rfl : m = m' := by simpa [Crit.reviving] using hmem
      exact hsel
    | startup => exact ⟨rfl, by simp [Crit.reviving]⟩
    | startModel => exact ⟨rfl, by simp [Crit.reviving]⟩
  | launched caller m pid hc hp =>
    exact h.moved (by simp [Event.isSpawning]) rfl
      (by cases caller <;> simp [hc, Crit.reviving])
  | execFailed caller m e hc =>
    exact h.moved (by simp) rfl (by cases caller <;> simp [hc, Crit.reviving])
  | failed caller m e hc =>
    exact h.moved (spawnReturned_isSpawning _ _ _ _) (by simp) (by simp)
  | record caller m child pid hc =>
    exact h.moved (spawnReturned_isSpawning _ _ _ _) (by simp) (by simp)
  | recovered m hc hcr => exact h.moved (by simp) rfl (by simp)
  | count m hc =>
    rcases countStep_cases s m cfg with ⟨heq, -⟩ | ⟨heq, -⟩
    · exact h.moved (countStep_isSpawning m) (by rw [heq]; rfl) (by rw [heq]; simp)
    · exact h.moved (countStep_isSpawning m) (by rw [heq]; rfl)
        (by rw [heq]; simp [hc, Crit.reviving])
  | probe hp => exact h.moved (by simp [Event.isSpawning]) rfl fun _ => id
  | write ok status startedAt hp =>
    exact h.moved (by simp [Event.isSpawning]) (by simp) fun _ => id
  | want m hp hm hw => exact h.moved (by simp [Event.isSpawning]) rfl fun _ => id
  | _ => exact h.moved (by simp) rfl fun _ => id

/-- **The recorded model is the selected one** in every run in which no crash of another
model passes the second look. -/
theorem faithful_of_run {cfg : Config} {tr : List Event} {s : Sup}
    (h : (supervisor cfg).Run NoSwitch tr s) : Faithful tr s ∧ WaitsFor tr s := by
  refine h.invariant (I := fun tr s => Faithful tr s ∧ WaitsFor tr s) ?_ ?_
  · rintro s ⟨autostart, rfl⟩
    refine ⟨⟨rfl, fun m hmem => ?_⟩, fun m hm => ?_⟩
    · cases autostart <;> exact absurd hmem (by simp [Sup.init, Crit.reviving])
    · cases autostart <;> exact absurd hm (by simp [Sup.Waits, Sup.init])
  · rintro tr s a s' ev hrun hok hs ⟨hfaithful, hwaits⟩
    exact ⟨(step_cases hs).faithful hok hwaits hfaithful,
      (step_cases hs).waitsFor (restartOk_of_run hrun).1 hfaithful.recorded hwaits⟩

/-! ## Results -/

/-- **Restarts revive the selected model** in every run in which nobody has switched to
another model since the wait began whenever the second look finds a crash. -/
theorem revives_selected_of_unswitched {cfg : Config} {tr : List Event} {s : Sup}
    (h : (supervisor cfg).Run NoSwitch tr s) : RevivesSelected tr s where
  launches := by
    refine h.each fun tr s a s' ev hrun _ hs htr => ?_
    by_cases hl : ∃ i m, .launched .maybeRestart i m ∈ ev
    · obtain ⟨i, m, hmem⟩ := hl
      obtain ⟨rfl, -, hc⟩ := (step_cases hs).of_launched hmem
      refine ⟨?_, htr⟩
      intro i' m' heq
      obtain ⟨-, rfl⟩ : i = i' ∧ m = m' := by simpa using heq
      show selection tr = some m
      exact (faithful_of_run hrun).1.reviving m (by simp [hc, Crit.reviving])
    · exact htr.append fun e he before i m hem => absurd ⟨i, m, hem ▸ he⟩ hl
  recorded := (faithful_of_run h).1.recorded

/-- The worker of the selected model exits and is revived. -/
theorem revives_selected_of_unswitched_crash :
    ∃ tr s, (supervisor sampleConfig).Run NoSwitch tr s ∧
      s.st.pid = some 8 ∧ RevivesSelected tr s := by
  have hreach := Run.reaches (supervisor sampleConfig) NoSwitch
    (List.flatten [startFully modelA 7, [.exit 0, .reap 0, .waitSection 0],
      [.poll, .poll, .poll, .poll],
      [.grant, .run, .run, .run, .run, .run, .run, .exec (.spawned 8), .run]])
    (fun _ s => s.st.pid = some 8) ⟨none, rfl⟩ (by decide) (by decide)
  obtain ⟨tr, s, hrun, hp⟩ := hreach
  exact ⟨tr, s, hrun, of_decide_eq_true hp, revives_selected_of_unswitched hrun⟩

/-- **The wrong model is revived**: in an orderly run the restart of a crashed worker waits
while another model is started, and that worker exits as well before the restart gets
the lock. -/
theorem stale_clone_is_revived :
    ∃ tr s, (supervisor sampleConfig).Run (Orderly sampleConfig) tr s ∧
      ¬ RevivesSelected tr s := by
  have hreach := Run.reaches (supervisor sampleConfig) (Orderly sampleConfig)
    (List.flatten [startFully modelA 7, [.exit 0, .reap 0, .waitSection 0],
      [.callStart modelB, .grant, .poll, .poll, .poll, .poll],
      [.run, .run, .run, .run, .run, .exec (.spawned 8), .run],
      [.exit 1, .reap 1, .waitSection 1],
      [.grant, .run, .run, .run, .run, .run, .run, .exec (.spawned 9)]])
    (fun tr _ => lastSatisfies (fun before e => e = .launched .maybeRestart 2 modelA ∧
      selection before = some modelB) tr) ⟨none, rfl⟩ (by decide) (by decide)
  obtain ⟨tr, s, hrun, hlast⟩ := hreach
  refine ⟨tr, s, hrun, fun h => not_each_of_last hlast (fun before e he hrevives => ?_) h.launches⟩
  obtain ⟨hlaunched, hb⟩ := of_decide_eq_true he
  have ha : selection before = some modelA := hrevives 2 modelA hlaunched
  rw [hb] at ha
  exact absurd ha (by simp [modelA, modelB])

end LlmCtl
