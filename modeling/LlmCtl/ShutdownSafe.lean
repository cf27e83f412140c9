/-
# No respawn across shutdown

`main` marks the flag, waits for the HTTP handlers and then calls `stop`.  The flag is
read only before `maybe_restart` waits for `lifecycle`, so a restart can still be
pending when that `stop` runs.  It is turned away all the same: the poller is one
sequential task, so while a restart of its own is pending it writes no status, and the
status that the restart finds under the lock is the `Stopped` of the final `stop`.
-/
import LlmCtl.StopFinal

namespace LlmCtl

open EventSystem

/-! ## The property -/

/-- Once the final `stop` has returned, no pid is recorded and nothing is launched. -/
structure NoRespawn (tr : List Event) (s : Sup) : Prop where
  pid : .stopReturned true ∈ tr → s.st.pid = none
  launches : Each (fun before e => ∀ caller i m, e = .launched caller i m →
    .stopReturned true ∉ before) tr

/-! ## The server has drained -/

/-- The flag is set, no handler waits for the lock and none will. -/
structure Drained (s : Sup) : Prop where
  flag : s.shuttingDown = true
  closed : s.main = .stopping ∨ s.main = .exited
  queue : ∀ w ∈ s.queue, w.isHandler = false

/-- `main`'s own `stop` waits for the lock or owns it. -/
def Sup.closing (s : Sup) : Prop :=
  .shutdown ∈ s.queue ∨ ∃ pc, s.holder = some (.stopInner .shutdown pc)

/-- The flag is set while the handlers drain. -/
def Sup.MarkedOk (s : Sup) : Prop := s.main = .marked → s.shuttingDown = true

theorem spawnReturned_main (s : Sup) (m : Model) (ok : Bool) {caller : Spawner}
    (h : caller ≠ .startup) : (spawnReturned s m ok caller).1.main = s.main := by
  cases caller with
  | startup => exact absurd rfl h
  | _ => rfl

theorem countStep_frame (cfg : Config) (s : Sup) (m : Model) :
    (countStep cfg s m).1.queue = s.queue ∧ (countStep cfg s m).1.main = s.main ∧
      (countStep cfg s m).1.shuttingDown = s.shuttingDown := by
  rcases countStep_cases s m cfg with ⟨heq, -⟩ | ⟨heq, -⟩ <;> rw [heq] <;> exact ⟨rfl, rfl, rfl⟩

theorem Drained.not_startup {s : Sup} (h : Drained s) (hst : s.StartupOk) {caller : Spawner}
    {m : Model} {pc : SpawnPc} (hc : s.holder = some (.spawn caller m pc)) :
    caller ≠ .startup := by
  rintro rfl
  have hmain := (hst m pc hc).2
  rcases h.closed with hs | hs <;> exact absurd (hmain.symm.trans hs) (by simp)

/-- Every step keeps the server drained. -/
theorem Step.keepsDrained {cfg : Config} {s s' : Sup} {a : Act} {ev : List Event}
    (hs : Step cfg s a ev s') (hst : s.StartupOk) (h : Drained s) : Drained s' := by
  have hclosed := h.closed
  cases hs with
  | call w hw hm =>
    rcases hclosed with heq | heq <;> exact absurd hm (by simp [heq, Main.accepts])
  | dropWaiting n w hn hw =>
    exact ⟨h.flag, hclosed, fun w' hw' => h.queue w' (List.mem_of_mem_eraseIdx hw')⟩
  | grant w ws hh hq =>
    exact ⟨h.flag, hclosed, fun w' hw' => h.queue w' (by rw [hq]; exact List.mem_cons_of_mem _ hw')⟩
  | finish caller hc =>
    refine ⟨by simpa using h.flag, ?_, by simpa using h.queue⟩
    cases caller with
    | shutdown => exact .inr rfl
    | _ => exact hclosed
  | spawnReturn caller m ok pc hc hpc =>
    refine ⟨by simpa using h.flag, ?_, by simpa using h.queue⟩
    rwa [spawnReturned_main _ _ _ (h.not_startup hst hc)]
  | failed caller m e hc =>
    refine ⟨by simpa using h.flag, ?_, by simpa using h.queue⟩
    rwa [spawnReturned_main _ _ _ (h.not_startup hst hc)]
  | record caller m child pid hc =>
    refine ⟨by simpa using h.flag, ?_, by simpa using h.queue⟩
    rwa [spawnReturned_main _ _ _ (h.not_startup hst hc)]
  | count m hc =>
    obtain ⟨hq, hm, hf⟩ := countStep_frame cfg s m
    exact ⟨hf.trans h.flag, by rwa [hm], by rw [hq]; exact h.queue⟩
  | want m hp hm hw =>
    refine ⟨h.flag, hclosed, fun w' hw' => ?_⟩
    rcases List.mem_append.mp hw' with hold | hnew
    · exact h.queue w' hold
    · obtain rfl := List.mem_singleton.mp hnew
      rfl
  | markShuttingDown hm =>
    rcases hclosed with heq | heq <;> exact absurd (hm.symm.trans heq) (by simp)
  | drained hm hh =>
    rcases hclosed with heq | heq <;> exact absurd (hm.symm.trans heq) (by simp)
  | _ => exact ⟨h.flag, hclosed, h.queue⟩

theorem Step.markedOk {cfg : Config} {s s' : Sup} {a : Act} {ev : List Event}
    (hs : Step cfg s a ev s') (h : s.MarkedOk) : s'.MarkedOk := by
  cases hs with
  | finish caller hc =>
    cases caller with
    | shutdown => exact fun hm => absurd hm (by simp [afterStop])
    | _ => exact h
  | spawnReturn caller m ok pc hc hpc =>
    cases caller with
    | startup => exact fun hm => absurd hm (by cases ok <;> simp [spawnReturned])
    | _ => exact h
  | failed caller m e hc =>
    cases caller with
    | startup => exact fun hm => absurd hm (by simp [spawnReturned])
    | _ => exact h
  | record caller m child pid hc =>
    cases caller with
    | startup => exact fun hm => absurd hm (by simp [spawnReturned])
    | _ => exact h
  | count m hc =>
    obtain ⟨-, hm, hf⟩ := countStep_frame cfg s m
    intro hmarked
    rw [hf]
    exact h (hm ▸ hmarked)
  | markShuttingDown hm => exact fun _ => rfl
  | drained hm hh => exact fun hmarked => absurd hmarked (by simp)
  | _ => exact h

theorem closing_of {s s' : Sup} (h : s'.closing)
    (hq : .shutdown ∈ s'.queue → .shutdown ∈ s.queue)
    (hh : ∀ pc, s'.holder = some (.stopInner .shutdown pc) →
      ∃ pc', s.holder = some (.stopInner .shutdown pc')) : s.closing := by
  rcases h with hmem | ⟨pc, hc⟩
  · exact .inl (hq hmem)
  · exact .inr (hh pc hc)

/-- The owner stays in `main`'s `stop_inner` only if it was there. -/
theorem CritMove.shutdown {s : Sup} {c : Crit} {pc : StopPc}
    (hm : CritMove s c (.stopInner .shutdown pc)) : ∃ pc', c = .stopInner .shutdown pc' := by
  cases hm <;> exact ⟨_, rfl⟩

/-- `main` gets to its `stop` only by draining. -/
theorem Step.closing {cfg : Config} {s s' : Sup} {a : Act} {ev : List Event}
    (hs : Step cfg s a ev s') (h : s'.closing) :
    s.closing ∨ (s.main = .marked ∧ s.handlerActive = false ∧
      s' = { s with main := .stopping, queue := s.queue ++ [.shutdown] }) := by
  cases hs with
  | drained hm hh => exact .inr ⟨hm, hh, rfl⟩
  | call w hw hm =>
    refine .inl (closing_of h (fun hmem => ?_) (fun pc hc => ⟨pc, hc⟩))
    rcases List.mem_append.mp hmem with hold | hnew
    · exact hold
    · obtain rfl := List.mem_singleton.mp hnew
      exact absurd hw (by simp [Waiter.isHandler])
  | dropWaiting n w hn hw =>
    exact .inl (closing_of h List.mem_of_mem_eraseIdx (fun pc hc => ⟨pc, hc⟩))
  | dropHolder c hc hh ha => exact .inl (closing_of h id (by simp))
  | grant w ws hh hq =>
    rcases h with hmem | ⟨pc, hc⟩
    · exact .inl (.inl (by rw [hq]; exact List.mem_cons_of_mem _ hmem))
    · have hw : w = .shutdown := by
        cases w <;> simp_all [Waiter.entry]
      exact .inl (.inl (by simp [hq, hw]))
  | move c c' hc hm =>
    refine .inl (closing_of h id (fun pc hpc => ?_))
    obtain rfl : c' = .stopInner .shutdown pc := by simpa using hpc
    obtain ⟨pc', rfl⟩ := hm.shutdown
    exact ⟨pc', hc⟩
  | running m hc => exact .inl (closing_of h id (by simp))
  | setStopping caller pid hc =>
    refine .inl (closing_of h id (fun pc hpc => ?_))
    obtain ⟨rfl, -⟩ : caller = .shutdown ∧ _ = pc := by simpa using hpc
    exact ⟨_, hc⟩
  | term caller pid hc | termFails caller pid hc =>
    refine .inl (closing_of h id (fun pc hpc => ?_))
    obtain ⟨rfl, -⟩ : caller = .shutdown ∧ _ = pc := by simpa using hpc
    exact ⟨_, hc⟩
  | kill caller pid hc | killFails caller pid hc =>
    refine .inl (closing_of h id (fun pc hpc => ?_))
    obtain ⟨rfl, -⟩ : caller = .shutdown ∧ _ = pc := by simpa using hpc
    exact ⟨_, hc⟩
  | finish caller hc =>
    refine .inl (closing_of h (by simp) (fun pc hpc => ?_))
    cases caller <;> simp [afterStop] at hpc
  | reset m hc => exact .inl (closing_of h id (by simp))
  | spawnReturn caller m ok pc hc hpc => exact .inl (closing_of h (by simp) (by simp))
  | begin caller m hc => exact .inl (closing_of h id (by simp))
  | launched caller m pid hc hp => exact .inl (closing_of h id (by simp))
  | execFailed caller m e hc => exact .inl (closing_of h id (by simp))
  | failed caller m e hc => exact .inl (closing_of h (by simp) (by simp))
  | record caller m child pid hc => exact .inl (closing_of h (by simp) (by simp))
  | recovered m hc hcr => exact .inl (closing_of h id (by simp))
  | count m hc =>
    refine .inl (closing_of h (by simp [(countStep_frame cfg s m).1]) ?_)
    intro pc hpc
    rcases countStep_cases s m cfg with ⟨heq, -⟩ | ⟨heq, -⟩ <;> simp [heq] at hpc
  | want m hp hm hw => exact .inl (closing_of h (by simp) (fun pc hc => ⟨pc, hc⟩))
  | _ => exact .inl h

/-- The server has drained when `main` gets to its `stop`. -/
theorem drained_of_handlers {s : Sup} (hmark : s.MarkedOk) (hm : s.main = .marked)
    (hh : s.handlerActive = false) :
    Drained { s with main := .stopping, queue := s.queue ++ [.shutdown] } := by
  refine ⟨hmark hm, .inl rfl, fun w hw => ?_⟩
  simp only [Sup.handlerActive, Bool.or_eq_false_iff, List.any_eq_false] at hh
  rcases List.mem_append.mp hw with hold | hnew
  · simpa using hh.1 w hold
  · obtain rfl := List.mem_singleton.mp hnew
    rfl

/-! ## After the final stop -/

/-- Is the poller past the flag, with a restart to decide on or pending? -/
def Poller.mayRestart : Poller → Bool
  | .want | .restarting => true
  | _ => false

/-- While the flag is set the poller does not get there. -/
theorem Step.mayRestart {cfg : Config} {s s' : Sup} {a : Act} {ev : List Event}
    (hs : Step cfg s a ev s') (hflag : s.shuttingDown = true)
    (h : s'.poller.mayRestart = true) : s.poller.mayRestart = true := by
  cases hs with
  | finish caller hc => simpa using h
  | spawnReturn caller m ok pc hc hpc =>
    cases caller with
    | startModel => exact h
    | maybeRestart => exact absurd h (by simp [spawnReturned, Poller.mayRestart])
    | startup =>
      cases ok with
      | true => exact absurd h (by simp [spawnReturned, Poller.mayRestart])
      | false => exact h
  | failed caller m e hc =>
    cases caller with
    | maybeRestart => exact absurd h (by simp [spawnReturned, Poller.mayRestart])
    | _ => exact h
  | record caller m child pid hc =>
    cases caller with
    | startModel => exact h
    | _ => exact absurd h (by simp [spawnReturned, Poller.mayRestart])
  | recovered m hc hcr => exact absurd h (by simp [Poller.mayRestart])
  | count m hc =>
    rcases countStep_cases s m cfg with ⟨heq, -⟩ | ⟨heq, -⟩
    · exact absurd h (by simp [heq, Poller.mayRestart])
    · rw [heq] at h
      exact h
  | pollMove p p' hp hm =>
    cases hm with
    | goOn hoff => exact absurd (hflag.symm.trans hoff) (by simp)
    | _ => exact absurd h (by simp [Poller.mayRestart])
  | probe hp => exact absurd h (by simp [Poller.mayRestart])
  | write ok status startedAt hp => exact absurd h (by simp [Poller.mayRestart])
  | want m hp hm hw =>
    rw [hp]
    rfl
  | slotsWrite slots metrics hp => exact absurd h (by simp [Poller.mayRestart])
  | _ => exact h

/-- The supervisor after the final stop: at rest, and a restart that is still under way
will find no crash. -/
structure Down (s : Sup) : Prop extends AtRest s where
  drained : Drained s
  calm : s.poller.mayRestart = true → s.st.status.isCrashed = false

theorem Step.down {cfg : Config} {s s' : Sup} {a : Act} {ev : List Event}
    (hs : Step cfg s a ev s') (hst : s.StartupOk) (hro : s.RestartOk) (h : Down s) :
    Down s' := by
  have hrest : AtRest s' := by
    refine hs.atRest h.toAtRest (fun m hmem => ?_) fun m hc => ?_
    · -- No handler is left to get the lock.
      exact absurd (h.drained.queue _ (hs.of_acquired hmem)) (by simp [Waiter.isHandler])
    · -- The owner is the poller, so the poller itself waits and cannot have polled.
      have hpoller : s.poller.isRestarting = true := (hro.owner hc rfl).2
      apply h.calm
      cases hp : s.poller <;> simp_all [Poller.isRestarting, Poller.mayRestart]
  refine ⟨hrest, hs.keepsDrained hst h.drained, fun hmay => ?_⟩
  have hbefore := hs.mayRestart h.drained.flag hmay
  cases hcr : s'.st.status.isCrashed with
  | false => rfl
  | true =>
    rcases hs.crashed_atRest h.toAtRest hcr with hold | ⟨-, hflag, -⟩
    · exact absurd ((h.calm hbefore).symm.trans hold) (by simp)
    · rw [hflag] at hmay
      exact absurd hmay (by simp [Poller.mayRestart])

/-- **After the final stop the supervisor stays down**, in every run. -/
theorem down_of_run {cfg : Config} {ok : List Event → Sup → Act → Prop} {tr : List Event}
    {s : Sup} (h : (supervisor cfg).Run ok tr s) :
    s.MarkedOk ∧ (s.closing → Drained s) ∧ (.stopReturned true ∈ tr → Down s) := by
  refine h.invariant (I := fun tr s => s.MarkedOk ∧ (s.closing → Drained s) ∧
    (.stopReturned true ∈ tr → Down s)) ?_ ?_
  · rintro s ⟨autostart, rfl⟩
    refine ⟨?_, ?_, by simp⟩
    · cases autostart <;> exact fun hm => absurd hm (by simp [Sup.init])
    · rintro (hmem | ⟨pc, hc⟩)
      · exact absurd hmem (by simp [Sup.init])
      · cases autostart <;> exact absurd hc (by simp [Sup.init])
  · rintro tr s a s' ev hrun - hs ⟨hmark, hclosing, hdown⟩
    have hstep := step_cases hs
    obtain ⟨hro, hst⟩ := restartOk_of_run hrun
    refine ⟨hstep.markedOk hmark, fun hcl => ?_, fun hfinal => ?_⟩
    · rcases hstep.closing hcl with hbefore | ⟨hm, hh, rfl⟩
      · exact hstep.keepsDrained hst (hclosing hbefore)
      · exact drained_of_handlers hmark hm hh
    · rcases List.mem_append.mp hfinal with hnow | hbefore
      · -- The final stop returns: its last section has just cleared pid and status.
        obtain ⟨caller, hcaller, hc, rfl⟩ := hstep.of_stopReturned hnow
        obtain rfl : caller = .shutdown := by
          rcases hcaller with ⟨-, hf⟩ | ⟨heq, -⟩
          · exact absurd hf (by simp)
          · exact heq
        have hdrained := hstep.keepsDrained hst (hclosing (.inr ⟨_, hc⟩))
        exact ⟨atRest_finish s (.inr rfl), hdrained, fun _ => by simp⟩
      · exact hstep.down hst hro (hdown hbefore)

/-! ## Results -/

/-- **No respawn across shutdown**: in every run, once the final `stop` has returned, no pid
is recorded and no worker is ever launched. -/
theorem no_respawn_across_shutdown {cfg : Config} {tr : List Event} {s : Sup}
    (h : (supervisor cfg).Run Anything tr s) : NoRespawn tr s where
  pid := fun hfinal => ((down_of_run h).2.2 hfinal).pid
  launches := by
    refine h.each fun tr s a s' ev hrun _ hs htr => ?_
    by_cases hl : ∃ caller i m, .launched caller i m ∈ ev
    · obtain ⟨caller, i, m, hmem⟩ := hl
      obtain ⟨rfl, -, hc⟩ := (step_cases hs).of_launched hmem
      refine ⟨fun _ _ _ _ hfinal => ?_, htr⟩
      exact (((down_of_run hrun).2.2 hfinal).owner _ hc).elim
    · exact htr.append fun e he before caller i m hem => absurd ⟨caller, i, m, hem ▸ he⟩ hl

/-- A restart passes the flag, waits for the lock while the daemon is told to shut down,
and gets the lock after the final stop. -/
theorem no_respawn_across_shutdown_pending :
    ∃ tr s, (supervisor sampleConfig).Run Anything tr s ∧
      tr.head? = some (.acquired (.maybeRestart modelA)) ∧ .stopReturned true ∈ tr ∧
      NoRespawn tr s := by
  have hreach := Run.reaches (supervisor sampleConfig) Anything
    (List.flatten [startFully modelA 7, [.exit 0, .reap 0, .waitSection 0],
      [.poll, .poll, .poll, .markShuttingDown, .drained, .poll],
      [.grant, .run, .run, .grant, .run]])
    (fun tr _ => tr.head? = some (.acquired (.maybeRestart modelA)) ∧ .stopReturned true ∈ tr)
    ⟨none, rfl⟩ (admits_anything _ _ _) (by decide)
  obtain ⟨tr, s, hrun, hp⟩ := hreach
  obtain ⟨hlast, hfinal⟩ := of_decide_eq_true hp
  exact ⟨tr, s, hrun, hlast, hfinal, no_respawn_across_shutdown hrun⟩

end LlmCtl
