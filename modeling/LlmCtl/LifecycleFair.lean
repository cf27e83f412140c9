/-
# Nobody waits for `lifecycle` forever

`lifecycle` is handed on in the order in which its waiters came, and each owner gives it back
after a bounded number of steps: `stop_inner` looks at the process ten times at most, half a
second apart, and nothing else under the lock repeats.  So a waiter gets the lock after a number
of steps and of such pauses that depends on its place in the queue alone, whatever comes after
it, and in the meantime somebody can always go on.

* `Meter` is what the owners use up: a bound for each program point, which every step of an
  owner lowers by its cost; `stepMeter` counts the steps, and `pauseMeter` the pauses.
* `Ticket` follows one waiter through the queue.
* `lifecycle_served` is the result for a waiter, and `shutdown_completes` for `main`'s last
  `stop`.
-/
import LlmCtl.ShutdownSafe
import Mathlib.Algebra.Ring.Nat

namespace LlmCtl

open EventSystem

/-! ## What is seen of the lock -/

/-- A grant, or a step of the owner: the pause between two looks, or anything else. -/
inductive HolderStep where
  | granted (w : Waiter)
  | paused
  | worked
  deriving DecidableEq, Repr

/-- What the next step of an owner is. -/
def Crit.lockStep : Crit → HolderStep
  | .stopInner _ (.sleep _ _) => .paused
  | _ => .worked

/-- What an action of the supervisor is for the lock. -/
def lockSteps (s : Sup) : Act → List HolderStep
  | .grant => (s.queue.head?.map HolderStep.granted).toList
  | .run => (s.holder.map Crit.lockStep).toList
  | .exec _ | .killFails => [.worked]
  | _ => []

/-- The supervisor, of which the lock is observed. -/
def lockView (cfg : Config) : EventSystem Sup Act HolderStep := (supervisor cfg).observe lockSteps

/-- Does the action take the lock, or is it one of the owner? -/
def Act.usesLock : Act → Bool
  | .grant | .run | .exec _ | .killFails => true
  | _ => false

/-- Does the action hand the lock on? -/
def Act.isGrant : Act → Bool
  | .grant => true
  | _ => false

theorem lockSteps_of_not_usesLock {a : Act} (s : Sup) (h : a.usesLock = false) :
    lockSteps s a = [] := by
  cases a <;> first | rfl | exact absurd h (by simp [Act.usesLock])

/-! ## The program under the lock -/

/-- **Where an owner goes**: to its next program point, or out of the lock. -/
inductive OwnerMove : Crit → Option Crit → Prop
  | returns (c : Crit) (h : c.lockStep = .worked) : OwnerMove c none
  | notRunning (m : Model) : OwnerMove (.startCheck m) (some (.startPid m))
  | stopFirst (m : Model) :
      OwnerMove (.startPid m) (some (.stopInner (.startModel m) .readPid))
  | noWorker (m : Model) : OwnerMove (.startPid m) (some (.startReset m))
  | reset (m : Model) : OwnerMove (.startReset m) (some (.spawn .startModel m .check))
  | recheck (m : Model) : OwnerMove (.recheck m) (some (.count m))
  | count (m : Model) : OwnerMove (.count m) (some (.stopInner (.maybeRestart m) .readPid))
  | readPid (caller : StopCaller) (pid : ℕ) :
      OwnerMove (.stopInner caller .readPid) (some (.stopInner caller (.setStopping pid)))
  | noPid (caller : StopCaller) :
      OwnerMove (.stopInner caller .readPid) (some (.stopInner caller .finish))
  | setStopping (caller : StopCaller) (pid : ℕ) :
      OwnerMove (.stopInner caller (.setStopping pid)) (some (.stopInner caller (.term pid)))
  | term (caller : StopCaller) (pid : ℕ) :
      OwnerMove (.stopInner caller (.term pid)) (some (.stopInner caller (.grace pid 10)))
  | graceOver (caller : StopCaller) (pid left : ℕ) :
      OwnerMove (.stopInner caller (.grace pid left)) (some (.stopInner caller (.killIfAlive pid)))
  | sleep (caller : StopCaller) (pid left : ℕ) :
      OwnerMove (.stopInner caller (.grace pid (left + 1)))
        (some (.stopInner caller (.sleep pid left)))
  | slept (caller : StopCaller) (pid left : ℕ) :
      OwnerMove (.stopInner caller (.sleep pid left)) (some (.stopInner caller (.grace pid left)))
  | gone (caller : StopCaller) (pid : ℕ) :
      OwnerMove (.stopInner caller (.killIfAlive pid)) (some (.stopInner caller .finish))
  | stopped (m : Model) :
      OwnerMove (.stopInner (.startModel m) .finish) (some (.startReset m))
  | cleared (m : Model) :
      OwnerMove (.stopInner (.maybeRestart m) .finish) (some (.spawn .maybeRestart m .check))
  | check (caller : Spawner) (m : Model) :
      OwnerMove (.spawn caller m .check) (some (.spawn caller m .begin))
  | begin (caller : Spawner) (m : Model) :
      OwnerMove (.spawn caller m .begin) (some (.spawn caller m .exec))
  | failed (caller : Spawner) (m : Model) (e : String) :
      OwnerMove (.spawn caller m .exec) (some (.spawn caller m (.failed e)))
  | launched (caller : Spawner) (m : Model) (child pid : ℕ) :
      OwnerMove (.spawn caller m .exec) (some (.spawn caller m (.record child pid)))

/-- An owner that gives the lock back. -/
theorem OwnerMove.of_free {c : Crit} {s : Sup} (h : c.lockStep = .worked) (hs : s.holder = none) :
    OwnerMove c s.holder := by
  rw [hs]
  exact .returns c h

theorem stopInnerStep_moves (s : Sup) (caller : StopCaller) (pc : StopPc) :
    OwnerMove (.stopInner caller pc) (stopInnerStep s caller pc).1.holder := by
  cases pc with
  | readPid =>
    simp only [stopInnerStep]
    split
    · exact .readPid caller _
    · exact .noPid caller
  | setStopping pid => exact .setStopping caller pid
  | term pid => exact .term caller pid
  | grace pid left =>
    cases left with
    | zero => exact .graceOver caller pid 0
    | succ n =>
      simp only [stopInnerStep]
      split
      · exact .sleep caller pid n
      · exact .graceOver caller pid (n + 1)
  | sleep pid left => exact .slept caller pid left
  | killIfAlive pid =>
    simp only [stopInnerStep]
    split <;> exact .gone caller pid
  | finish =>
    cases caller with
    | startModel m => exact .stopped m
    | maybeRestart m => exact .cleared m
    | stop | shutdown => exact .of_free rfl rfl

/-- **Every step of an owner follows the program.** -/
theorem holderStep_moves {cfg : Config} {s : Sup} {c : Crit} {r : Sup × List Event}
    (h : holderStep cfg s c = some r) : OwnerMove c r.1.holder := by
  cases c with
  | startCheck m =>
    simp only [holderStep] at h
    split at h
    · cases h
      exact .of_free rfl rfl
    · cases h
      exact .notRunning m
  | startPid m =>
    simp only [holderStep] at h
    split at h
    · cases h
      exact .stopFirst m
    · cases h
      exact .noWorker m
  | startReset m =>
    cases h
    exact .reset m
  | recheck m =>
    simp only [holderStep] at h
    split at h
    · cases h
      exact .recheck m
    · cases h
      exact .of_free rfl rfl
  | count m =>
    obtain rfl := Option.some.inj h
    rcases countStep_holder s m cfg with hfree | hstop
    · exact .of_free rfl hfree
    · rw [hstop]
      exact .count m
  | stopInner caller pc =>
    obtain rfl := Option.some.inj h
    exact stopInnerStep_moves s caller pc
  | spawn caller m pc =>
    cases pc with
    | check =>
      simp only [holderStep, spawnStep] at h
      split at h
      · obtain rfl := Option.some.inj h
        exact .of_free rfl (by simp)
      · cases h
        exact .check caller m
    | begin =>
      cases h
      exact .begin caller m
    | exec => exact absurd h (by simp [holderStep, spawnStep])
    | failed e =>
      obtain rfl := Option.some.inj h
      exact .of_free rfl (by simp)
    | record child pid =>
      obtain rfl := Option.some.inj h
      exact .of_free rfl (by simp)

theorem execStep_moves {cfg : Config} {s : Sup} {caller : Spawner} {m : Model} {o : ExecOutcome}
    {r : Sup × List Event} (h : execStep cfg s caller m o = some r) :
    OwnerMove (.spawn caller m .exec) r.1.holder := by
  cases o with
  | logFailed e =>
    obtain rfl := Option.some.inj h
    exact .of_free rfl (by simp)
  | spawnFailed e =>
    cases h
    exact .failed caller m e
  | spawned pid =>
    simp only [execStep] at h
    split at h
    · cases h
      exact .launched caller m _ pid
    · exact absurd h (by simp)

theorem killFailsStep_moves {s : Sup} {caller : StopCaller} {pc : StopPc} {r : Sup × List Event}
    (h : killFailsStep s caller pc = some r) : OwnerMove (.stopInner caller pc) r.1.holder := by
  cases pc with
  | term pid =>
    cases h
    exact .term caller pid
  | killIfAlive pid =>
    simp only [killFailsStep] at h
    split at h
    · cases h
      exact .gone caller pid
    · cases h
  | readPid | setStopping | grace | sleep | finish => exact absurd h (by simp [killFailsStep])

/-- `kill` fails in two places of `stop_inner`, and in none of them does it pause. -/
theorem killFailsStep_lockStep {s : Sup} {caller : StopCaller} {pc : StopPc}
    {r : Sup × List Event} (h : killFailsStep s caller pc = some r) :
    (Crit.stopInner caller pc).lockStep = .worked := by
  cases pc with
  | sleep => exact absurd h (by simp [killFailsStep])
  | _ => rfl

/-- An owner can always go on; only the outcome of `cmd.spawn()` is not its own. -/
theorem exists_owner_step (cfg : Config) {s : Sup} {c : Crit} (hc : s.holder = some c) :
    ∃ a, a.usesLock = true ∧ (step cfg s a).isSome = true := by
  by_cases hexec : ∃ caller m, c = .spawn caller m .exec
  · obtain ⟨caller, m, rfl⟩ := hexec
    exact ⟨.exec (.logFailed ""), rfl, by simp [step, hc, execStep]⟩
  · refine ⟨.run, rfl, ?_⟩
    simp only [step, hc]
    cases c with
    | spawn caller m pc =>
      cases pc with
      | exec => exact absurd ⟨caller, m, rfl⟩ hexec
      | check =>
        simp only [holderStep, spawnStep]
        split <;> rfl
      | _ => rfl
    | startCheck m | startPid m | recheck m =>
      simp only [holderStep]
      split <;> rfl
    | _ => rfl

/-! ## What the owners use up -/

/-- What an owner may still use at each program point, the most that a call uses from the grant
to its return, and the costs of the steps. -/
structure Meter where
  left : Crit → ℕ
  most : ℕ
  cost : HolderStep → ℕ

namespace Meter

variable (m : Meter)

/-- What the owner, if there is one, may still use. -/
def of (s : Sup) : ℕ := (s.holder.map m.left).getD 0

/-- What the steps have cost. -/
def spent (ev : List HolderStep) : ℕ := (ev.map m.cost).sum

/-- **A meter is right**: a call begins with no more than the most, and every step of an owner
is paid for. -/
structure Right : Prop where
  entry : ∀ w, m.cost (.granted w) + m.left w.entry ≤ m.most
  owner : ∀ c h, OwnerMove c h → m.cost c.lockStep + (h.map m.left).getD 0 ≤ m.left c
  startup : ∀ model, m.left (.spawn .startup model .check) ≤ m.most

@[simp] theorem spent_nil : m.spent [] = 0 := rfl

@[simp] theorem spent_singleton (l : HolderStep) : m.spent [l] = m.cost l := by simp [spent]

theorem spent_append (ev ev' : List HolderStep) :
    m.spent (ev ++ ev') = m.spent ev + m.spent ev' := by simp [spent]

variable {m}

theorem of_free {s : Sup} (h : s.holder = none) : m.of s = 0 := by simp [of, h]

end Meter

/-- The steps from a point of `stop_inner` to its end. -/
def StopPc.steps : StopPc → ℕ
  | .readPid => 26
  | .setStopping _ => 25
  | .term _ => 24
  | .grace _ left => 2 * left + 3
  | .sleep _ left => 2 * left + 4
  | .killIfAlive _ => 2
  | .finish => 1

/-- The steps that are left when `stop_inner` has returned. -/
def StopCaller.steps : StopCaller → ℕ
  | .startModel _ => 5
  | .maybeRestart _ => 4
  | .stop | .shutdown => 0

def SpawnPc.steps : SpawnPc → ℕ
  | .check => 4
  | .begin => 3
  | .exec => 2
  | .failed _ | .record _ _ => 1

def Crit.steps : Crit → ℕ
  | .startCheck _ => 33
  | .startPid _ | .recheck _ => 32
  | .count _ => 31
  | .startReset _ => 5
  | .stopInner caller pc => pc.steps + caller.steps
  | .spawn _ _ pc => pc.steps

/-- Every step counts. -/
def stepMeter : Meter where
  left := Crit.steps
  most := 34
  cost := fun _ => 1

theorem Crit.steps_pos (c : Crit) : 0 < c.steps := by
  cases c with
  | stopInner caller pc => cases pc <;> simp only [steps, StopPc.steps] <;> omega
  | spawn caller m pc => cases pc <;> simp only [steps, SpawnPc.steps] <;> omega
  | _ => simp only [steps]; omega

/-- **No owner takes more than 33 steps.** -/
theorem stepMeter_right : stepMeter.Right where
  entry := by
    intro w
    cases w <;> simp [stepMeter, Waiter.entry, Crit.steps, StopPc.steps, StopCaller.steps]
  owner := by
    intro c h hm
    cases hm with
    | returns c h => exact c.steps_pos
    | stopFirst | count | stopped | cleared =>
      simp [stepMeter, Crit.steps, StopPc.steps, StopCaller.steps, SpawnPc.steps]
    | _ =>
      simp only [stepMeter, Crit.steps, StopPc.steps, SpawnPc.steps, Option.map_some,
        Option.getD_some]
      omega
  startup := by
    intro model
    simp [stepMeter, Crit.steps, SpawnPc.steps]

/-- The pauses that are left in `stop_inner`. -/
def StopPc.pauses : StopPc → ℕ
  | .readPid | .setStopping _ | .term _ => 10
  | .grace _ left => left
  | .sleep _ left => left + 1
  | .killIfAlive _ | .finish => 0

def Crit.pauses : Crit → ℕ
  | .startCheck _ | .startPid _ | .recheck _ | .count _ => 10
  | .startReset _ | .spawn _ _ _ => 0
  | .stopInner _ pc => pc.pauses

def HolderStep.isPause : HolderStep → Bool
  | .paused => true
  | .granted _ | .worked => false

/-- Only the pauses count. -/
def pauseMeter : Meter where
  left := Crit.pauses
  most := 10
  cost := fun l => l.isPause.toNat

/-- **No owner pauses more than ten times.** -/
theorem pauseMeter_right : pauseMeter.Right where
  entry := by
    intro w
    cases w <;> simp [pauseMeter, Waiter.entry, Crit.pauses, StopPc.pauses, HolderStep.isPause]
  owner := by
    intro c h hm
    cases hm with
    | returns c h => simp [pauseMeter, h, HolderStep.isPause]
    | slept => simp [pauseMeter, Crit.pauses, StopPc.pauses, Crit.lockStep, HolderStep.isPause,
        Nat.add_comm]
    | _ => simp [pauseMeter, Crit.pauses, StopPc.pauses, Crit.lockStep, HolderStep.isPause]
  startup := by
    intro model
    simp [pauseMeter, Crit.pauses]

/-! ## The steps of the supervisor -/

section Steps

variable {cfg : Config} {s s' : Sup} {a : Act} {ev : List Event}

/-- A grant takes the first waiter. -/
theorem grant_cases (h : step cfg s .grant = some (s', ev)) :
    ∃ w ws, s.holder = none ∧ s.queue = w :: ws ∧ s' = { s with queue := ws }.goto w.entry := by
  simp only [step] at h
  split at h
  · next w ws hh hq =>
    cases h
    exact ⟨w, ws, hh, hq, rfl⟩
  · exact absurd h (by simp)

/-- A waiter whose future is dropped leaves the queue. -/
theorem dropWaiting_queue {n : ℕ} (h : step cfg s (.dropWaiting n) = some (s', ev)) :
    s'.queue = s.queue.eraseIdx n := by
  simp only [step] at h
  split at h
  · split at h
    · cases h
      rfl
    · exact absurd h (by simp)
  · exact absurd h (by simp)

/-- The waiters stay where they are, unless the lock is granted or one of them leaves. -/
theorem Step.queue_kept (hs : Step cfg s a ev s') (hg : a ≠ .grant)
    (hd : ∀ n, a ≠ .dropWaiting n) : s.queue <+: s'.queue := by
  cases hs with
  | dropWaiting n w hn hw => exact absurd rfl (hd n)
  | grant w ws hh hq => exact absurd rfl hg
  | call w hw hm => exact List.prefix_append _ _
  | want m hp hm hw => exact List.prefix_append _ _
  | drained hm hh => exact List.prefix_append _ _
  | finish caller hc => simp
  | spawnReturn caller m ok pc hc hpc => simp
  | failed caller m e hc => simp
  | record caller m child pid hc => simp
  | count m hc => simp [(countStep_frame cfg s m).1]
  | _ => exact List.prefix_refl _

/-- Without a step of the owner the lock stays with it, or is given back. -/
theorem Step.holder_kept (hs : Step cfg s a ev s') (h : a.usesLock = false) :
    s'.holder = s.holder ∨ s'.holder = none := by
  cases hs with
  | dropHolder c hc hh ha => exact .inr rfl
  | spawnReturn caller m ok pc hc hpc => exact .inr (by simp)
  | tick | exit | appear | reap | waitSection | call | dropWaiting | pollMove | probe | write | want
  | slotsWrite | markShuttingDown | drained | markRequest | stashTurn => exact .inl rfl
  | _ => exact absurd h (by simp [Act.usesLock])

/-- **Every step is paid for**: what it costs is taken from what the owner may still use, and a
grant pays the most for one waiter. -/
theorem Meter.Right.paid {m : Meter} (hm : m.Right) (h : step cfg s a = some (s', ev)) :
    m.spent (lockSteps s a) + m.of s' ≤ m.of s + if a.isGrant then m.most else 0 := by
  by_cases hl : a.usesLock = true
  · cases a with
    | grant =>
      obtain ⟨w, ws, hh, hq, rfl⟩ := grant_cases h
      have hentry := hm.entry w
      simpa [lockSteps, hq, Meter.of, hh, Act.isGrant] using hentry
    | run =>
      simp only [step] at h
      split at h
      · next c hc =>
        have howner := hm.owner c _ (holderStep_moves h)
        simpa [lockSteps, hc, Meter.of, Act.isGrant] using howner
      · exact absurd h (by simp)
    | exec o =>
      simp only [step] at h
      split at h
      · next caller model hc =>
        have howner := hm.owner _ _ (execStep_moves h)
        simpa [lockSteps, hc, Meter.of, Crit.lockStep, Act.isGrant] using howner
      · exact absurd h (by simp)
    | killFails =>
      simp only [step] at h
      split at h
      · next caller pc hc =>
        have howner := hm.owner _ _ (killFailsStep_moves h)
        rw [killFailsStep_lockStep h] at howner
        simpa [lockSteps, hc, Meter.of, Act.isGrant] using howner
      · exact absurd h (by simp)
    | _ => exact absurd hl (by simp [Act.usesLock])
  · have hl' : a.usesLock = false := by simpa using hl
    have hne : a.isGrant = false := by
      cases a <;> first | rfl | exact absurd rfl hl
    rw [lockSteps_of_not_usesLock s hl', Meter.spent_nil, hne]
    rcases (step_cases h).holder_kept hl' with heq | hfree
    · simp [Meter.of, heq]
    · simp [Meter.of_free hfree]

end Steps

/-! ## A place in the queue -/

/-- What has become of a waiter: it waits behind so many others, it has got the lock, or its
future was dropped. -/
inductive Ticket where
  | waiting (place : ℕ)
  | served
  | gone
  deriving DecidableEq, Repr

/-- The ticket after an action. -/
def Ticket.after : Ticket → Act → Ticket
  | .waiting n, .grant => if n = 0 then .served else .waiting (n - 1)
  | .waiting n, .dropWaiting k =>
    if k = n then .gone else .waiting (if k < n then n - 1 else n)
  | t, _ => t

theorem Ticket.foldl_served (as : List Act) : as.foldl after served = served := by
  induction as with
  | nil => rfl
  | cons a as ih => exact ih

theorem Ticket.foldl_gone (as : List Act) : as.foldl after gone = gone := by
  induction as with
  | nil => rfl
  | cons a as ih => exact ih

/-- What a ticket says of the state and of what was seen, for the waiter `w`. -/
def Ticket.Holds (w : Waiter) (s : Sup) (ev : List HolderStep) : Ticket → Prop
  | .waiting n => s.queue[n]? = some w
  | .served => .granted w ∈ ev
  | .gone => True

section Queue

variable {cfg : Config} {s s' : Sup} {a : Act} {ev : List Event} {w : Waiter} {n : ℕ}

/-- **A waiter keeps its place**, but for those before it that are served or leave. -/
theorem ticket_step (h : step cfg s a = some (s', ev)) (hn : s.queue[n]? = some w) :
    ((Ticket.waiting n).after a).Holds w s' (lockSteps s a) := by
  cases a with
  | grant =>
    obtain ⟨v, ws, hh, hq, rfl⟩ := grant_cases h
    rw [hq] at hn
    cases n with
    | zero =>
      obtain rfl : v = w := by simpa using hn
      simp [Ticket.after, Ticket.Holds, lockSteps, hq]
    | succ n => simpa [Ticket.after, Ticket.Holds] using hn
  | dropWaiting k =>
    have hqueue := dropWaiting_queue h
    simp only [Ticket.after]
    split
    · trivial
    · next hk =>
      show s'.queue[_]? = some w
      rw [hqueue, List.getElem?_eraseIdx]
      by_cases hlt : k < n
      · have hsucc : n - 1 + 1 = n := by omega
        rw [if_pos hlt, if_neg (by omega), hsucc]
        exact hn
      · rw [if_neg hlt, if_pos (by omega)]
        exact hn
  | _ =>
    obtain ⟨ws, hws⟩ := (step_cases h).queue_kept (by simp) (by simp)
    show s'.queue[n]? = some w
    rw [← hws, List.getElem?_append_left (List.getElem?_eq_some_iff.mp hn).1]
    exact hn

/-- **A step costs a waiter no more than what its place is worth.** -/
theorem Meter.Right.ticket_paid {m : Meter} (hm : m.Right) (h : step cfg s a = some (s', ev))
    (k : ℕ) (hk : (Ticket.waiting n).after a = .waiting k) :
    m.spent (lockSteps s a) + (m.of s' + m.most * k) ≤ m.of s + m.most * n := by
  have hstep := hm.paid h
  cases a with
  | grant =>
    simp only [Ticket.after] at hk
    split at hk
    · exact absurd hk (by simp)
    · obtain rfl := Ticket.waiting.inj hk
      obtain ⟨j, rfl⟩ : ∃ j, n = j + 1 := ⟨n - 1, by omega⟩
      simp only [Act.isGrant, if_pos] at hstep
      rw [Nat.add_sub_cancel, Nat.mul_succ]
      omega
  | dropWaiting j =>
    simp only [Ticket.after] at hk
    split at hk
    · exact absurd hk (by simp)
    · obtain rfl := Ticket.waiting.inj hk
      have hle : m.most * (if j < n then n - 1 else n) ≤ m.most * n :=
        Nat.mul_le_mul_left _ (by split <;> omega)
      simp only [Act.isGrant, Bool.false_eq_true, if_false] at hstep
      omega
  | _ =>
    obtain rfl : n = k := Ticket.waiting.inj hk
    simp only [Act.isGrant, Bool.false_eq_true, if_false] at hstep
    omega

end Queue

/-! ## Runs -/

section Runs

variable {cfg : Config} {tr ev : List HolderStep} {s s' : Sup} {as : List Act} {m : Meter}

/-- No owner may still use more than the most. -/
theorem Meter.Right.of_le (hm : m.Right) {tr : List Event}
    (h : (supervisor cfg).Run Anything tr s) : m.of s ≤ m.most := by
  refine h.invariant (I := fun _ s => m.of s ≤ m.most) ?_ ?_
  · rintro s ⟨autostart, rfl⟩
    cases autostart with
    | none => exact Nat.zero_le _
    | some model => exact hm.startup model
  · intro tr s a s' ev _ _ hs ih
    have hpaid := hm.paid hs
    cases hg : a.isGrant with
    | false =>
      rw [hg] at hpaid
      simp only [Bool.false_eq_true, if_false] at hpaid
      omega
    | true =>
      obtain rfl : a = .grant := by
        cases a <;> first | rfl | exact absurd hg (by simp [Act.isGrant])
      have hgrant : step cfg s .grant = some (s', ev) := hs
      obtain ⟨w, ws, hh, -, -⟩ := grant_cases hgrant
      rw [Meter.of_free hh, hg] at hpaid
      simp only [if_true] at hpaid
      omega

/-- **A waiter through a run**: its ticket holds, and while it waits the owners have used up no
more than the waiters before it were worth. -/
theorem Meter.Right.ticket_run (hm : m.Right) (h : (lockView cfg).Run Anything tr s)
    (hx : (lockView cfg).exec s as = some (s', ev)) {n : ℕ} {w : Waiter}
    (hn : s.queue[n]? = some w) :
    (as.foldl Ticket.after (.waiting n)).Holds w s' ev ∧
      ∀ k, as.foldl Ticket.after (.waiting n) = .waiting k →
        m.spent ev + (m.of s' + m.most * k) ≤ m.of s + m.most * n := by
  refine h.exec_composes (T := fun s as ev s' => ∀ n, s.queue[n]? = some w →
    (as.foldl Ticket.after (.waiting n)).Holds w s' ev ∧
      ∀ k, as.foldl Ticket.after (.waiting n) = .waiting k →
        m.spent ev + (m.of s' + m.most * k) ≤ m.of s + m.most * n) ?_ ?_ hx n hn
  · intro s n hn
    refine ⟨hn, fun k hk => ?_⟩
    obtain rfl : n = k := Ticket.waiting.inj hk
    simp
  · rintro tr s a s₁ ev as s' ev' - hs ih n hn
    obtain ⟨rfl, ev₀, hstep⟩ := observe_step hs
    have hticket := ticket_step hstep hn
    rw [List.foldl_cons]
    cases ht : (Ticket.waiting n).after a with
    | waiting j =>
      rw [ht] at hticket
      obtain ⟨hholds, hspent⟩ := ih j hticket
      refine ⟨?_, fun k hk => ?_⟩
      · cases hfold : as.foldl Ticket.after (.waiting j) with
        | waiting k =>
          rw [hfold] at hholds
          exact hholds
        | served =>
          rw [hfold] at hholds
          exact List.mem_append_left _ hholds
        | gone => trivial
      · have hrest := hspent k hk
        have hfirst := hm.ticket_paid hstep j ht
        rw [Meter.spent_append]
        omega
    | served =>
      rw [ht] at hticket
      rw [Ticket.foldl_served]
      exact ⟨List.mem_append_right _ hticket, fun k hk => absurd hk (by simp)⟩
    | gone =>
      rw [Ticket.foldl_gone]
      exact ⟨trivial, fun k hk => absurd hk (by simp)⟩

theorem spent_stepMeter (ev : List HolderStep) : stepMeter.spent ev = ev.length := by
  simp [Meter.spent, stepMeter]

theorem spent_pauseMeter (ev : List HolderStep) :
    pauseMeter.spent ev = ev.countP HolderStep.isPause := by
  induction ev with
  | nil => rfl
  | cons l ev ih =>
    rw [List.countP_cons, ← ih]
    cases l <;> simp [Meter.spent, pauseMeter, HolderStep.isPause, Nat.add_comm]

/-- While somebody waits or owns the lock, somebody can go on with it. -/
theorem exists_lock_step {w : Waiter} {n : ℕ} (hn : s.queue[n]? = some w) :
    ∃ a, a.usesLock = true ∧ (step cfg s a).isSome = true := by
  cases hc : s.holder with
  | some c => exact exists_owner_step cfg hc
  | none =>
    refine ⟨.grant, rfl, ?_⟩
    cases hq : s.queue with
    | nil => simp [hq] at hn
    | cons v ws => simp [step, hc, hq]

end Runs

/-! ## The last stop -/

/-- Is this `main`'s own `stop`? -/
def Waiter.isShutdown : Waiter → Bool
  | .shutdown => true
  | _ => false

/-- Does `main` own the lock for its `stop`? -/
def Crit.isShutdown : Crit → Bool
  | .stopInner .shutdown _ => true
  | _ => false

/-- `main`'s `stop` waits for the lock or owns it, once, while `main` is at it. -/
def Sup.ShutdownOk (s : Sup) : Prop :=
  s.queue.countP Waiter.isShutdown + (s.holder.any Crit.isShutdown).toNat =
    (decide (s.main = .stopping)).toNat

/-- No handler waits for the lock or owns it, and none will. -/
structure Closing (s : Sup) : Prop extends Drained s where
  owner : ∀ c, s.holder = some c → c.isHandler = false

theorem Waiter.isShutdown_of_isHandler {w : Waiter} (h : w.isHandler = true) :
    w.isShutdown = false := by
  cases w <;> simp_all [Waiter.isHandler, Waiter.isShutdown]

theorem Crit.isShutdown_of_isHandler {c : Crit} (h : c.isHandler = true) :
    c.isShutdown = false := by
  cases c with
  | stopInner caller pc => cases caller <;> simp_all [Crit.isHandler, Crit.isShutdown]
  | _ => rfl

theorem Waiter.entry_isShutdown (w : Waiter) : w.entry.isShutdown = w.isShutdown := by
  cases w <;> rfl

theorem Waiter.entry_isHandler (w : Waiter) : w.entry.isHandler = w.isHandler := by
  cases w <;> rfl

theorem CritMove.isShutdown {s : Sup} {c c' : Crit} (hm : CritMove s c c') :
    c'.isShutdown = c.isShutdown := by
  cases hm with
  | readPid caller | noPid caller | graceOver caller | sleep caller | slept caller
  | gone caller => cases caller <;> rfl
  | _ => rfl

theorem CritMove.isHandler {s : Sup} {c c' : Crit} (hm : CritMove s c c') :
    c'.isHandler = c.isHandler := by
  cases hm with
  | readPid caller | noPid caller | graceOver caller | sleep caller | slept caller
  | gone caller => cases caller <;> rfl
  | begin caller => cases caller <;> rfl
  | _ => rfl

section Closing

variable {cfg : Config} {s s' : Sup} {a : Act} {ev : List Event}

/-- A step that does not touch `main`'s `stop`. -/
theorem Sup.ShutdownOk.same (h : s.ShutdownOk)
    (hq : s'.queue.countP Waiter.isShutdown = s.queue.countP Waiter.isShutdown)
    (hh : s'.holder.any Crit.isShutdown = s.holder.any Crit.isShutdown)
    (hm : s'.main = .stopping ↔ s.main = .stopping) : s'.ShutdownOk := by
  have hd : decide (s'.main = .stopping) = decide (s.main = .stopping) := by simp [hm]
  unfold Sup.ShutdownOk
  rw [hq, hh, hd]
  exact h

theorem spawnReturned_stopping (hst : s.StartupOk) {caller : Spawner} {m : Model} {pc : SpawnPc}
    (hc : s.holder = some (.spawn caller m pc)) {t : Sup} (ht : t.main = s.main) (ok : Bool) :
    (spawnReturned t m ok caller).1.main = .stopping ↔ s.main = .stopping := by
  by_cases hcaller : caller = .startup
  · subst hcaller
    have hmain := (hst m pc hc).2
    cases ok <;> simp [spawnReturned, hmain]
  · rw [spawnReturned_main _ _ _ hcaller, ht]

/-- Every step keeps the account of `main`'s `stop`. -/
theorem Step.shutdownOk (hs : Step cfg s a ev s') (hst : s.StartupOk) (h : s.ShutdownOk) :
    s'.ShutdownOk := by
  cases hs with
  | call w hw hm =>
    refine h.same ?_ rfl .rfl
    simp [Waiter.isShutdown_of_isHandler hw]
  | dropWaiting n w hn hw =>
    exact h.same (countP_eraseIdx_of_false hn (Waiter.isShutdown_of_isHandler hw)) rfl .rfl
  | dropHolder c hc hh ha =>
    refine h.same rfl ?_ .rfl
    simp [hc, Crit.isShutdown_of_isHandler hh]
  | grant w ws hh hq =>
    unfold Sup.ShutdownOk at h ⊢
    rw [hh, hq] at h
    simp only [Option.any_none, Bool.toNat_false, List.countP_cons, Nat.add_zero] at h
    refine Eq.trans ?_ h
    simp only [Sup.goto_holder, Sup.goto_queue, Option.any_some, Waiter.entry_isShutdown]
    cases w.isShutdown <;> rfl
  | move c c' hc hm =>
    refine h.same rfl ?_ .rfl
    simp [hc, hm.isShutdown]
  | running m hc => exact h.same rfl (by simp [hc, Crit.isShutdown]) .rfl
  | setStopping caller pid hc =>
    refine h.same rfl ?_ .rfl
    cases caller <;> simp [hc, Crit.isShutdown]
  | term caller pid hc | termFails caller pid hc =>
    refine h.same rfl ?_ .rfl
    cases caller <;> simp [hc, Crit.isShutdown]
  | kill caller pid hc | killFails caller pid hc =>
    refine h.same rfl ?_ .rfl
    cases caller <;> simp [hc, Crit.isShutdown]
  | finish caller hc =>
    cases caller with
    | shutdown =>
      -- The last `stop` leaves the account, and `main` leaves it too.
      unfold Sup.ShutdownOk at h ⊢
      rw [hc] at h
      cases hm : decide (s.main = .stopping) with
      | false =>
        rw [hm] at h
        simp [Crit.isShutdown] at h
      | true =>
        rw [hm] at h
        simpa [afterStop, Crit.isShutdown] using h
    | startModel m => exact h.same rfl (by simp [afterStop, hc, Crit.isShutdown]) .rfl
    | maybeRestart m => exact h.same rfl (by simp [afterStop, hc, Crit.isShutdown]) .rfl
    | stop => exact h.same rfl (by simp [afterStop, hc, Crit.isShutdown]) .rfl
  | reset m hc => exact h.same rfl (by simp [hc, Crit.isShutdown]) .rfl
  | spawnReturn caller m ok pc hc hpc =>
    exact h.same (by simp) (by simp [hc, Crit.isShutdown]) (spawnReturned_stopping hst hc rfl ok)
  | begin caller m hc => exact h.same rfl (by simp [hc, Crit.isShutdown]) .rfl
  | launched caller m pid hc hp => exact h.same rfl (by simp [hc, Crit.isShutdown]) .rfl
  | execFailed caller m e hc => exact h.same rfl (by simp [hc, Crit.isShutdown]) .rfl
  | failed caller m e hc =>
    exact h.same (by simp) (by simp [hc, Crit.isShutdown])
      (spawnReturned_stopping hst hc (t := { s with st := s.st.spawnFailed e }) rfl false)
  | record caller m child pid hc =>
    exact h.same (by simp) (by simp [hc, Crit.isShutdown])
      (spawnReturned_stopping hst hc (t := { s with
        st := s.st.recordPid pid, procs := s.procs.modify child Proc.startWait }) rfl true)
  | recovered m hc hcr => exact h.same rfl (by simp [hc, Crit.isShutdown]) .rfl
  | count m hc =>
    obtain ⟨hq, hm, -⟩ := countStep_frame cfg s m
    refine h.same (by rw [hq]) ?_ (by rw [hm])
    rcases countStep_holder s m cfg with hfree | hstop
    · simp [hfree, hc, Crit.isShutdown]
    · simp [hstop, hc, Crit.isShutdown]
  | want m hp hm hw => exact h.same (by simp [Waiter.isShutdown]) rfl .rfl
  | markShuttingDown hm => exact h.same rfl rfl (by simp [hm])
  | drained hm hh =>
    unfold Sup.ShutdownOk at h ⊢
    rw [hm] at h
    simp only [reduceCtorEq, decide_false, Bool.toNat_false, Nat.add_eq_zero_iff] at h
    simp [h.1, h.2, Waiter.isShutdown]
  | _ => exact h

/-- Every step keeps the handlers away. -/
theorem Step.keepsClosing (hs : Step cfg s a ev s') (hst : s.StartupOk) (h : Closing s) :
    Closing s' := by
  refine ⟨hs.keepsDrained hst h.toDrained, ?_⟩
  -- An owner that stays in its call, or that is gone.
  have hsame : ∀ {c c' : Crit}, s.holder = some c → s'.holder = some c' →
      c'.isHandler = c.isHandler → ∀ d, s'.holder = some d → d.isHandler = false := by
    intro c c' hc hc' heq d hd
    obtain rfl := Option.some.inj (hc'.symm.trans hd)
    rw [heq]
    exact h.owner c hc
  have hfree : s'.holder = none → ∀ d, s'.holder = some d → d.isHandler = false := by
    intro hnone d hd
    exact absurd (hnone.symm.trans hd) (by simp)
  cases hs with
  | dropHolder c hc hh ha => exact hfree rfl
  | grant w ws hh hq =>
    intro d hd
    obtain rfl : w.entry = d := by simpa using hd
    rw [w.entry_isHandler]
    exact h.queue w (by simp [hq])
  | move c c' hc hm => exact hsame hc rfl hm.isHandler
  | running m hc => exact hfree rfl
  | setStopping caller pid hc => exact hsame hc rfl rfl
  | term caller pid hc | termFails caller pid hc => exact hsame hc rfl rfl
  | kill caller pid hc | killFails caller pid hc => exact hsame hc rfl rfl
  | finish caller hc =>
    cases caller with
    | startModel m => exact hsame hc rfl rfl
    | maybeRestart m => exact hsame hc rfl rfl
    | stop => exact hfree rfl
    | shutdown => exact hfree rfl
  | reset m hc => exact hsame hc rfl rfl
  | spawnReturn caller m ok pc hc hpc => exact hfree (by simp)
  | begin caller m hc => exact hsame hc rfl rfl
  | launched caller m pid hc hp => exact hsame hc rfl rfl
  | execFailed caller m e hc => exact hsame hc rfl rfl
  | failed caller m e hc => exact hfree (by simp)
  | record caller m child pid hc => exact hfree (by simp)
  | recovered m hc hcr => exact hfree rfl
  | count m hc =>
    rcases countStep_holder s m cfg with hnone | hstop
    · exact hfree hnone
    · exact hsame hc hstop rfl
  | _ => exact h.owner

/-- `main` gets to its `stop` by draining, and by nothing else. -/
theorem Step.main_stopping (hs : Step cfg s a ev s') (hst : s.StartupOk)
    (h : s'.main = .stopping) :
    s.main = .stopping ∨ (s.main = .marked ∧ s.handlerActive = false ∧
      s' = { s with main := .stopping, queue := s.queue ++ [.shutdown] }) := by
  cases hs with
  | drained hm hh => exact .inr ⟨hm, hh, rfl⟩
  | finish caller hc =>
    cases caller with
    | shutdown => exact absurd h (by simp [afterStop])
    | _ => exact .inl h
  | spawnReturn caller m ok pc hc hpc => exact .inl ((spawnReturned_stopping hst hc rfl ok).mp h)
  | failed caller m e hc =>
    exact .inl ((spawnReturned_stopping hst hc (t := { s with st := s.st.spawnFailed e }) rfl
      false).mp h)
  | record caller m child pid hc =>
    exact .inl ((spawnReturned_stopping hst hc (t := { s with
      st := s.st.recordPid pid, procs := s.procs.modify child Proc.startWait }) rfl true).mp h)
  | count m hc => exact .inl ((countStep_frame cfg s m).2.1 ▸ h)
  | markShuttingDown hm => exact absurd h (by simp)
  | _ => exact .inl h

/-- **The account of the last stop**, in every run. -/
theorem closing_of_run {tr : List Event} (h : (supervisor cfg).Run Anything tr s) :
    s.ShutdownOk ∧ (s.main = .stopping → Closing s) := by
  refine h.invariant (I := fun _ s => s.ShutdownOk ∧ (s.main = .stopping → Closing s)) ?_ ?_
  · rintro s ⟨autostart, rfl⟩
    cases autostart with
    | none => exact ⟨rfl, fun hm => absurd hm (by simp [Sup.init])⟩
    | some m => exact ⟨rfl, fun hm => absurd hm (by simp [Sup.init])⟩
  · rintro tr s a s' ev hrun - hs ⟨hok, hclosing⟩
    have hst := (restartOk_of_run hrun).2
    refine ⟨(step_cases hs).shutdownOk hst hok, fun hm => ?_⟩
    rcases (step_cases hs).main_stopping hst hm with hbefore | ⟨hmarked, hidle, rfl⟩
    · exact (step_cases hs).keepsClosing hst (hclosing hbefore)
    · refine ⟨drained_of_handlers (down_of_run hrun).1 hmarked hidle, fun c hc => ?_⟩
      simp only [Sup.handlerActive, Bool.or_eq_false_iff] at hidle
      have hc' : s.holder = some c := hc
      simpa [hc'] using hidle.2

/-! ## The price of the last stop -/

/-- Is the poller about to decide on a restart? -/
def Poller.isWanting : Poller → Bool
  | .want => true
  | _ => false

/-- The calls that wait for the lock, with the one that the poller may still add. -/
def Sup.calls (s : Sup) : ℕ := s.queue.length + s.poller.isWanting.toNat

theorem PollMove.isWanting {p p' : Poller} (hm : PollMove s p p') (hf : s.shuttingDown = true) :
    p'.isWanting = false := by
  cases hm with
  | goOn h => exact absurd (hf.symm.trans h) (by simp)
  | _ => rfl

/-- **No calls come in** once the handlers have drained. -/
theorem Step.calls_le (hs : Step cfg s a ev s') (h : Drained s) : s'.calls ≤ s.calls := by
  -- the queue stays, and the poller leaves its decision or does not come to it
  have hkeep : s'.queue = s.queue → (s'.poller = s.poller ∨ s'.poller.isWanting = false) →
      s'.calls ≤ s.calls := by
    rintro hq (hp | hp)
    · rw [Sup.calls, Sup.calls, hq, hp]
    · rw [Sup.calls, Sup.calls, hq, hp]
      simp
  cases hs with
  | call w hw hm =>
    rcases h.closed with heq | heq <;> exact absurd hm (by simp [heq, Main.accepts])
  | dropWaiting n w hn hw =>
    have hle : (s.queue.eraseIdx n).length ≤ s.queue.length := List.length_eraseIdx_le _ _
    simp only [Sup.calls]
    omega
  | grant w ws hh hq =>
    simp only [Sup.calls, Sup.goto_queue, Sup.goto_poller, hq, List.length_cons]
    omega
  | finish caller hc => exact hkeep (by simp) (.inl (by simp))
  | spawnReturn caller m ok pc hc hpc =>
    refine hkeep (by simp) ?_
    cases caller <;> cases ok <;> simp [spawnReturned, Poller.isWanting]
  | failed caller m e hc =>
    refine hkeep (by simp) ?_
    cases caller <;> simp [spawnReturned, Poller.isWanting]
  | record caller m child pid hc =>
    refine hkeep (by simp) ?_
    cases caller <;> simp [spawnReturned, Poller.isWanting]
  | recovered m hc hcr => exact hkeep rfl (.inr rfl)
  | count m hc =>
    refine hkeep (countStep_frame cfg s m).1 ?_
    rcases countStep_cases s m cfg with ⟨heq, -⟩ | ⟨heq, -⟩ <;> rw [heq]
    · exact .inr rfl
    · exact .inl rfl
  | pollMove p p' hp hm => exact hkeep rfl (.inr (hm.isWanting h.flag))
  | probe hp => exact hkeep rfl (.inr rfl)
  | write ok status startedAt hp => exact hkeep rfl (.inr rfl)
  | want m hp hm hw =>
    simp [Sup.calls, hp, Poller.isWanting]
  | slotsWrite slots metrics hp => exact hkeep rfl (.inr rfl)
  | markShuttingDown hm =>
    rcases h.closed with heq | heq <;> exact absurd (hm.symm.trans heq) (by simp)
  | drained hm hh =>
    rcases h.closed with heq | heq <;> exact absurd (hm.symm.trans heq) (by simp)
  | _ => exact hkeep rfl (.inl rfl)

/-- What the owner and the calls may still use. -/
def Meter.price (m : Meter) (s : Sup) : ℕ := m.of s + m.most * s.calls

/-- **Every step is paid from the price.** -/
theorem Meter.Right.price_paid {m : Meter} (hm : m.Right) (h : Drained s)
    (hs : step cfg s a = some (s', ev)) : m.spent (lockSteps s a) + m.price s' ≤ m.price s := by
  have hpaid := hm.paid hs
  have hcalls := (step_cases hs).calls_le h
  cases hg : a.isGrant with
  | false =>
    rw [hg] at hpaid
    simp only [Bool.false_eq_true, if_false] at hpaid
    have hle := Nat.mul_le_mul_left m.most hcalls
    unfold Meter.price
    omega
  | true =>
    obtain rfl : a = .grant := by
      cases a <;> first | rfl | exact absurd hg (by simp [Act.isGrant])
    obtain ⟨w, ws, hh, hq, rfl⟩ := grant_cases hs
    have hsucc : s.calls = ({ s with queue := ws }.goto w.entry).calls + 1 := by
      simp only [Sup.calls, Sup.goto_queue, Sup.goto_poller, hq, List.length_cons]
      omega
    rw [hg] at hpaid
    simp only [if_true] at hpaid
    unfold Meter.price
    rw [hsucc, Nat.mul_succ]
    omega

/-- Who waits is a restart of the poller, or `main`. -/
theorem length_le_counts {ws : List Waiter} (h : ∀ w ∈ ws, w.isHandler = false) :
    ws.length ≤ ws.countP Waiter.isRestart + ws.countP Waiter.isShutdown := by
  induction ws with
  | nil => exact Nat.zero_le _
  | cons w ws ih =>
    have hrest := ih fun v hv => h v (List.mem_cons_of_mem _ hv)
    have hw := h w List.mem_cons_self
    simp only [List.length_cons, List.countP_cons]
    cases w <;> simp_all [Waiter.isHandler, Waiter.isRestart, Waiter.isShutdown] <;> omega

/-- Two calls are left at most: a restart, and `main`'s `stop`. -/
theorem calls_of_run {tr : List Event} (h : (supervisor cfg).Run Anything tr s)
    (hm : s.main = .stopping) : s.calls + s.holder.isSome.toNat ≤ 2 := by
  obtain ⟨hshut, hclosing⟩ := closing_of_run h
  obtain ⟨hrestart, hst⟩ := restartOk_of_run h
  have hclosed := hclosing hm
  have hlen := length_le_counts hclosed.queue
  have howner : s.holder.isSome.toNat ≤
      (s.holder.any Crit.isPoller).toNat + (s.holder.any Crit.isShutdown).toNat := by
    cases hc : s.holder with
    | none => exact Nat.zero_le _
    | some c =>
      have hnot := hclosed.owner c hc
      cases c with
      | startCheck m | startPid m | startReset m => exact absurd hnot (by simp [Crit.isHandler])
      | recheck m | count m => simp [Crit.isPoller]
      | stopInner caller pc =>
        cases caller <;> simp_all [Crit.isHandler, Crit.isPoller, Crit.isShutdown]
      | spawn caller m pc =>
        cases caller with
        | startup => exact absurd ((hst m pc hc).2.symm.trans hm) (by simp)
        | startModel => exact absurd hnot (by simp [Crit.isHandler])
        | maybeRestart => simp [Crit.isPoller]
  have hpoller : s.poller.isRestarting.toNat + s.poller.isWanting.toNat ≤ 1 := by
    cases s.poller <;> simp [Poller.isRestarting, Poller.isWanting]
  unfold Sup.ShutdownOk at hshut
  unfold Sup.RestartOk Sup.restartsPending at hrestart
  have hone : (decide (s.main = .stopping)).toNat = 1 := by simp [hm]
  rw [hone] at hshut
  unfold Sup.calls
  omega

/-- While `main` is at its `stop`, the calls are worth two at most. -/
theorem Meter.Right.price_le {m : Meter} (hm : m.Right) {tr : List Event}
    (h : (supervisor cfg).Run Anything tr s) (hmain : s.main = .stopping) :
    m.price s ≤ m.most * 2 := by
  have hcalls := calls_of_run h hmain
  have hof : m.of s ≤ m.most * s.holder.isSome.toNat := by
    cases hc : s.holder with
    | none => simp [Meter.of_free hc]
    | some c =>
      have hle := hm.of_le h
      simpa using hle
  have hle := Nat.mul_le_mul_left m.most hcalls
  rw [Nat.mul_add] at hle
  unfold Meter.price
  omega

/-- **The last stop through a run.** -/
theorem Meter.Right.price_run {m : Meter} (hm : m.Right) {tr ev : List HolderStep} {as : List Act}
    (h : (lockView cfg).Run Anything tr s) (hx : (lockView cfg).exec s as = some (s', ev))
    (hs : Drained s) : Drained s' ∧ m.spent ev + m.price s' ≤ m.price s := by
  refine h.exec_composes (T := fun s _ ev s' => Drained s →
    Drained s' ∧ m.spent ev + m.price s' ≤ m.price s) ?_ ?_ hx hs
  · intro s hs
    exact ⟨hs, by simp⟩
  · rintro tr s a s₁ ev as s' ev' hrun hstep ih hs
    obtain ⟨rfl, ev₀, hstep'⟩ := observe_step hstep
    obtain ⟨tr', hrun'⟩ := hrun.of_observe
    obtain ⟨hs', hrest⟩ := ih ((step_cases hstep').keepsDrained (restartOk_of_run hrun').2 hs)
    have hfirst := hm.price_paid hs hstep'
    refine ⟨hs', ?_⟩
    rw [Meter.spent_append]
    omega

end Closing

/-! ## Results -/

/-- What holds of a waiter, given where it was and its ticket. -/
def Waits (cfg : Config) (w : Waiter) (n : ℕ) (s : Sup) (ev : List HolderStep) : Ticket → Prop
  | .waiting k =>
    s.queue[k]? = some w ∧ ev.length ≤ 34 * (n + 1) ∧ ev.countP HolderStep.isPause ≤ 10 * (n + 1) ∧
      ∃ a, a.usesLock = true ∧ (step cfg s a).isSome = true
  | .served => .granted w ∈ ev
  | .gone => True

/-- **Every waiter is served.**  Let `w` wait for `lifecycle` behind `n` others.  Whatever happens
then, as long as its future is not dropped it has got the lock, or it still waits, fewer than
`34 * (n + 1)` steps have been taken under the lock, with at most ten pauses for each owner, and
another step can be taken. -/
theorem lifecycle_served {cfg : Config} {tr ev : List HolderStep} {s s' : Sup} {as : List Act}
    {n : ℕ} {w : Waiter} (h : (lockView cfg).Run Anything tr s) (hn : s.queue[n]? = some w)
    (hx : (lockView cfg).exec s as = some (s', ev)) :
    Waits cfg w n s' ev (as.foldl Ticket.after (.waiting n)) := by
  obtain ⟨tr', hrun⟩ := h.of_observe
  have hsteps := stepMeter_right.ticket_run h hx hn
  have hpauses := pauseMeter_right.ticket_run h hx hn
  have hleft := stepMeter_right.of_le hrun
  have hleft' := pauseMeter_right.of_le hrun
  cases ht : as.foldl Ticket.after (.waiting n) with
  | waiting k =>
    have hplace : s'.queue[k]? = some w := by
      have hholds := hsteps.1
      rw [ht] at hholds
      exact hholds
    refine ⟨hplace, ?_, ?_, exists_lock_step hplace⟩
    · have hle := hsteps.2 k ht
      rw [spent_stepMeter] at hle
      have hmost : stepMeter.most = 34 := rfl
      rw [hmost] at hle hleft
      omega
    · have hle := hpauses.2 k ht
      rw [spent_pauseMeter] at hle
      have hmost : pauseMeter.most = 10 := rfl
      rw [hmost] at hle hleft'
      omega
  | served =>
    have hholds := hsteps.1
    rw [ht] at hholds
    exact hholds
  | gone => trivial

/-- A stop whose worker exits at the second look, and the grant of the next call. -/
def stopThenGrant : List Act :=
  [.grant, .run, .run, .run, .run, .exit 0, .run, .run, .run, .run, .grant]

/-- A second handler waits behind a first one, and is served when that one has returned. -/
theorem lifecycle_served_second :
    ∃ tr s s' ev, (lockView sampleConfig).Run Anything tr s ∧
      s.queue[1]? = some (.startModel modelB) ∧
      (lockView sampleConfig).exec s stopThenGrant = some (s', ev) ∧
      .granted (.startModel modelB) ∈ ev := by
  have hreach := Run.reaches (lockView sampleConfig) Anything
    (startFully modelA 7 ++ [.callStop, .callStart modelB])
    (fun _ s => decide (s.queue[1]? = some (Waiter.startModel modelB)) &&
      ((lockView sampleConfig).exec s stopThenGrant).isSome)
    ⟨none, rfl⟩ (admits_anything _ _ _) (by decide)
  obtain ⟨tr, s, hrun, hp⟩ := hreach
  rw [Bool.and_eq_true, decide_eq_true_eq] at hp
  obtain ⟨⟨s', ev⟩, hx⟩ := Option.isSome_iff_exists.mp hp.2
  exact ⟨tr, s, s', ev, hrun, hp.1, hx, lifecycle_served hrun hp.1 hx⟩

/-- **A graceful shutdown comes to its end.**  From the call of `main`'s `stop` on, at most 68
steps are taken under the lock and at most twenty pauses are made, whatever else happens; and until
the daemon has exited another step can be taken. -/
theorem shutdown_completes {cfg : Config} {tr ev : List HolderStep} {s s' : Sup} {as : List Act}
    (h : (lockView cfg).Run Anything tr s) (hm : s.main = .stopping)
    (hx : (lockView cfg).exec s as = some (s', ev)) :
    ev.length ≤ 68 ∧ ev.countP HolderStep.isPause ≤ 20 ∧
      (s'.main = .exited ∨ ∃ a, a.usesLock = true ∧ (step cfg s' a).isSome = true) := by
  obtain ⟨tr', hrun⟩ := h.of_observe
  have hdrained := ((closing_of_run hrun).2 hm).toDrained
  obtain ⟨hdrained', hsteps⟩ := stepMeter_right.price_run h hx hdrained
  have hpauses := (pauseMeter_right.price_run h hx hdrained).2
  have hle : stepMeter.price s ≤ 34 * 2 := stepMeter_right.price_le hrun hm
  have hle' : pauseMeter.price s ≤ 10 * 2 := pauseMeter_right.price_le hrun hm
  rw [spent_stepMeter] at hsteps
  rw [spent_pauseMeter] at hpauses
  refine ⟨by omega, by omega, ?_⟩
  rcases hdrained'.closed with hm' | hexit
  · right
    obtain ⟨tr'', hrun'⟩ := (h.exec (admits_anything _ _ _) hx).of_observe
    have hshut := (closing_of_run hrun').1
    unfold Sup.ShutdownOk at hshut
    cases hc : s'.holder with
    | some c => exact exists_owner_step cfg hc
    | none =>
      cases hq : s'.queue with
      | nil => simp [hc, hq, hm'] at hshut
      | cons w ws => exact exists_lock_step (n := 0) (w := w) (by simp [hq])
  · exact .inl hexit

/-- The restart of a crashed worker, and then `main`'s `stop` of the new one. -/
def restartThenStop : List Act :=
  [.grant, .run, .run, .run, .run, .run, .run, .exec (.spawned 8), .run,
    .grant, .run, .run, .run, .exit 1, .run, .run, .run]

/-- The daemon shuts down while a restart is pending. -/
theorem shutdown_completes_pending :
    ∃ tr s s' ev, (lockView sampleConfig).Run Anything tr s ∧ s.main = .stopping ∧
      (lockView sampleConfig).exec s restartThenStop = some (s', ev) ∧ s'.main = .exited ∧
      ev.length ≤ 68 := by
  have hreach := Run.reaches (lockView sampleConfig) Anything
    (startFully modelA 7 ++ [.exit 0, .reap 0, .waitSection 0] ++
      [.poll, .poll, .poll, .poll, .markShuttingDown, .drained])
    (fun _ s => decide (s.main = Main.stopping) &&
      ((lockView sampleConfig).exec s restartThenStop).any fun r => decide (r.1.main = Main.exited))
    ⟨none, rfl⟩ (admits_anything _ _ _) (by decide)
  obtain ⟨tr, s, hrun, hp⟩ := hreach
  rw [Bool.and_eq_true, decide_eq_true_eq] at hp
  obtain ⟨⟨s', ev⟩, hx, hexit⟩ := (Option.any_eq_true _ _).mp hp.2
  exact ⟨tr, s, s', ev, hrun, hp.1, hx, of_decide_eq_true hexit,
    (shutdown_completes hrun hp.1 hx).1⟩

end LlmCtl
