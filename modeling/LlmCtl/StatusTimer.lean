/-
# The handlers of the status bar (`llama-stats.ts`)

A session's start clears the figures, waits for the terminal to settle, polls the daemon, and
then polls it every two seconds; a session's end stops the timer.  Several starts may be under way
at once, and polls of earlier sessions may still be, when a session starts or ends.

* `TimersKnown` and `ShowsCurrent` are the invariant: no timer runs but the one that the extension
  knows, and what is shown was made for the current session, from the last reply that was shown.
* `Quiet` is what the end of the last session leaves.

A reply is read and its text is shown without a pause between the two, so no other handler runs
there.
-/
import LlmCtl.Runs
import LlmCtl.StatusBar

namespace LlmCtl

open EventSystem

/-! ## The handlers -/

/-- A call that is under way: of `session_start`, which waits for the terminal and then for its
poll, or of a timer. -/
inductive BarTask where
  | settling
  | starting
  | polling
  | over
  deriving DecidableEq

/-- The variables of the extension, what the status bar shows, the timers that run and the number
of those that were made, and the calls. -/
structure PiBar where
  currentSid : Option String
  shown : Option String
  timer : Option ℕ
  live : List ℕ
  made : ℕ
  tasks : List BarTask

inductive BarAct where
  /-- `session_start`: what `getSessionId` gives, unless it throws, and whether `setStatus`
  succeeds. -/
  | start (got : Option (Option String)) (set : Bool)
  /-- A second later. -/
  | settled (i : ℕ)
  /-- A timer fires. -/
  | tick (n : ℕ)
  /-- A poll has its reply, or none, and its text is shown if `setStatus` succeeds. -/
  | reply (i : ℕ) (r : Option Json) (set : Bool)
  /-- `session_shutdown`. -/
  | shutdown

/-- What is seen: the status bar changes, after a reply or without one, or the session ends. -/
inductive BarEvent where
  | wrote (reply : Option Json)
  | closed

/-- Does the status bar change? -/
def BarEvent.isWrote : BarEvent → Bool
  | .wrote _ => true
  | .closed => false

namespace PiBar

/-- `safeSetStatus`. -/
def setStatus (s : PiBar) (set : Bool) (text : String) : PiBar :=
  if set then { s with shown := some text } else s

/-- What is seen of it. -/
def statusEvents (set : Bool) (reply : Option Json) : List BarEvent :=
  if set then [.wrote reply] else []

/-- `currentSid` after `reportSession`. -/
def report (s : PiBar) (got : Option (Option String)) : PiBar :=
  match got with
  | some sid => { s with currentSid := (reportSession sid).1 }
  | none => s

/-- `if (timer) clearInterval(timer)`. -/
def clearTimer (s : PiBar) : PiBar :=
  match s.timer with
  | some n => { s with live := s.live.erase n }
  | none => s

/-- `timer = setInterval(…)`. -/
def setTimer (s : PiBar) : PiBar :=
  { s with timer := some s.made, live := s.live ++ [s.made], made := s.made + 1 }

def setTask (s : PiBar) (i : ℕ) (t : BarTask) : PiBar := { s with tasks := s.tasks.set i t }

@[simp] theorem clearTimer_shown (s : PiBar) : s.clearTimer.shown = s.shown := by
  unfold clearTimer
  split <;> rfl

@[simp] theorem clearTimer_currentSid (s : PiBar) : s.clearTimer.currentSid = s.currentSid := by
  unfold clearTimer
  split <;> rfl

@[simp] theorem clearTimer_tasks (s : PiBar) : s.clearTimer.tasks = s.tasks := by
  unfold clearTimer
  split <;> rfl

@[simp] theorem setStatus_tasks (s : PiBar) (set : Bool) (text : String) :
    (s.setStatus set text).tasks = s.tasks := by cases set <;> rfl

/-- The calls that poll for a timer. -/
def polls (s : PiBar) : ℕ := s.tasks.count .polling

end PiBar

section Handlers

variable (host : BarHost)

/-- One step of the event loop. -/
def barStep (s : PiBar) : BarAct → Option (PiBar × List BarEvent)
  | .start got set =>
    let s' := (s.report got).setStatus set idleText
    some ({ s' with tasks := s'.tasks ++ [.settling] }, PiBar.statusEvents set none)
  | .settled i =>
    match s.tasks[i]? with
    | some .settling => some (s.setTask i .starting, [])
    | _ => none
  | .tick n => if n ∈ s.live then some ({ s with tasks := s.tasks ++ [.polling] }, []) else none
  | .reply i r set =>
    let s' := (s.setStatus set (polled host r s.currentSid)).setTask i .over
    match s.tasks[i]? with
    | some .starting => some (s'.clearTimer.setTimer, PiBar.statusEvents set r)
    | some .polling => some (s', PiBar.statusEvents set r)
    | _ => none
  | .shutdown => some ({ s.clearTimer with timer := none, currentSid := none }, [.closed])

/-- The extension, from its loading on. -/
def piBar : EventSystem PiBar BarAct BarEvent where
  init := fun s => s = ⟨none, none, none, [], 0, []⟩
  step := barStep host

end Handlers

/-- `setStatus` may fail, but not when a session starts. -/
def StartsShow (_ : List BarEvent) (_ : PiBar) : BarAct → Prop
  | .start _ set => set = true
  | _ => True

instance (tr : List BarEvent) (s : PiBar) (a : BarAct) : Decidable (StartsShow tr s a) := by
  unfold StartsShow
  split <;> infer_instance

/-! ## The invariant -/

/-- No timer runs but the one that the extension knows. -/
def TimersKnown (s : PiBar) : Prop := s.live = s.timer.toList

/-- The reply, or none, of the last change of the status bar. -/
def lastShown : List BarEvent → Option (Option Json)
  | [] => none
  | .wrote reply :: _ => some reply
  | .closed :: tr => lastShown tr

/-- What is shown was made from the last reply that was shown, for the current session. -/
def ShowsCurrent (host : BarHost) (tr : List BarEvent) (s : PiBar) : Prop :=
  s.shown = (lastShown tr).map fun reply => polled host reply s.currentSid

/-- Nothing was shown since the last session has ended. -/
def isStale : List BarEvent → Bool
  | .closed :: _ => true
  | _ => false

section Invariant

variable {host : BarHost} {s s' : PiBar} {tr ev : List BarEvent} {a : BarAct}

theorem TimersKnown.clearTimer (h : TimersKnown s) : s.clearTimer.live = [] := by
  unfold PiBar.clearTimer
  cases htimer : s.timer with
  | none => simpa [TimersKnown, htimer] using h
  | some n =>
    have hone : s.live = [n] := by simpa [TimersKnown, htimer] using h
    simp [hone]

/-- The old timer is stopped before the new one is made. -/
theorem TimersKnown.setTimer (h : TimersKnown s) : TimersKnown s.clearTimer.setTimer := by
  have hnone := h.clearTimer
  simp [TimersKnown, PiBar.setTimer, hnone]

/-- The status bar does not concern the timers. -/
theorem TimersKnown.setStatus (h : TimersKnown s) (set : Bool) (text : String) :
    TimersKnown (s.setStatus set text) := by
  cases set <;> exact h

theorem TimersKnown.step (h : TimersKnown s) (hs : (piBar host).step s a = some (s', ev)) :
    TimersKnown s' := by
  simp only [piBar] at hs
  cases a with
  | start got set =>
    obtain ⟨rfl, -⟩ := Prod.mk.inj (Option.some.inj hs)
    have hreport : TimersKnown (s.report got) := by cases got <;> exact h
    exact hreport.setStatus set idleText
  | settled i =>
    simp only [barStep] at hs
    split at hs
    · obtain ⟨rfl, -⟩ := Prod.mk.inj (Option.some.inj hs)
      exact h
    · exact absurd hs (by simp)
  | tick n =>
    simp only [barStep] at hs
    split at hs
    · obtain ⟨rfl, -⟩ := Prod.mk.inj (Option.some.inj hs)
      exact h
    · exact absurd hs (by simp)
  | reply i r set =>
    have hshown : TimersKnown ((s.setStatus set (polled host r s.currentSid)).setTask i .over) :=
      h.setStatus set _
    simp only [barStep] at hs
    split at hs
    · obtain ⟨rfl, -⟩ := Prod.mk.inj (Option.some.inj hs)
      exact hshown.setTimer
    · obtain ⟨rfl, -⟩ := Prod.mk.inj (Option.some.inj hs)
      exact hshown
    · exact absurd hs (by simp)
  | shutdown =>
    obtain ⟨rfl, -⟩ := Prod.mk.inj (Option.some.inj hs)
    exact h.clearTimer

/-- **What is shown stays current**, or the session ends. -/
theorem ShowsCurrent.step (h : isStale tr = true ∨ ShowsCurrent host tr s)
    (hok : StartsShow tr s a) (hs : (piBar host).step s a = some (s', ev)) :
    isStale (ev ++ tr) = true ∨ ShowsCurrent host (ev ++ tr) s' := by
  simp only [piBar] at hs
  cases a with
  | start got set =>
    obtain rfl : set = true := hok
    obtain ⟨rfl, rfl⟩ := Prod.mk.inj (Option.some.inj hs)
    exact .inr rfl
  | settled i =>
    simp only [barStep] at hs
    split at hs
    · obtain ⟨rfl, rfl⟩ := Prod.mk.inj (Option.some.inj hs)
      exact h
    · exact absurd hs (by simp)
  | tick n =>
    simp only [barStep] at hs
    split at hs
    · obtain ⟨rfl, rfl⟩ := Prod.mk.inj (Option.some.inj hs)
      exact h
    · exact absurd hs (by simp)
  | reply i r set =>
    -- Without a call of `setStatus` that succeeds nothing is seen, and nothing has changed.
    have hshown : isStale (PiBar.statusEvents set r ++ tr) = true ∨
        ShowsCurrent host (PiBar.statusEvents set r ++ tr)
          (s.setStatus set (polled host r s.currentSid)) := by
      cases set with
      | false => exact h
      | true => exact .inr rfl
    simp only [barStep] at hs
    split at hs
    · obtain ⟨rfl, rfl⟩ := Prod.mk.inj (Option.some.inj hs)
      refine hshown.imp_right fun hcurrent => ?_
      simpa [ShowsCurrent, PiBar.setTimer, PiBar.setTask] using hcurrent
    · obtain ⟨rfl, rfl⟩ := Prod.mk.inj (Option.some.inj hs)
      exact hshown
    · exact absurd hs (by simp)
  | shutdown =>
    obtain ⟨-, rfl⟩ := Prod.mk.inj (Option.some.inj hs)
    exact .inl rfl

/-! ## After the last session -/

/-- No start is under way. -/
def NoStarts (s : PiBar) : Prop := ∀ t ∈ s.tasks, t = .polling ∨ t = .over

/-- No timer runs, and no start will make one. -/
structure Quiet (s : PiBar) : Prop where
  timer : s.timer = none
  live : s.live = []
  starts : NoStarts s

/-- Is it the start of a session? -/
def BarAct.isStart : BarAct → Bool
  | .start _ _ => true
  | _ => false

theorem countP_statusEvents (set : Bool) (reply : Option Json) :
    (PiBar.statusEvents set reply).countP BarEvent.isWrote ≤ 1 := by
  cases set <;> simp [PiBar.statusEvents, BarEvent.isWrote]

/-- **A step without a start**: what is seen of a poll is its last. -/
theorem Quiet.step (h : Quiet s) (ha : a.isStart = false)
    (hs : (piBar host).step s a = some (s', ev)) :
    Quiet s' ∧ ev.countP BarEvent.isWrote + s'.polls ≤ s.polls := by
  simp only [piBar] at hs
  cases a with
  | start got set => exact absurd ha (by simp [BarAct.isStart])
  | settled i =>
    simp only [barStep] at hs
    split at hs
    · next hi =>
      have hsettling := h.starts _ (List.mem_of_getElem? hi)
      exact absurd hsettling (by simp)
    · exact absurd hs (by simp)
  | tick n =>
    simp only [barStep] at hs
    split at hs
    · next hn => exact absurd hn (by simp [h.live])
    · exact absurd hs (by simp)
  | reply i r set =>
    simp only [barStep] at hs
    split at hs
    · next hi =>
      have hstarting := h.starts _ (List.mem_of_getElem? hi)
      exact absurd hstarting (by simp)
    · next hi =>
      obtain ⟨rfl, rfl⟩ := Prod.mk.inj (Option.some.inj hs)
      obtain ⟨hlt, hget⟩ := List.getElem?_eq_some_iff.mp hi
      refine ⟨⟨?_, ?_, ?_⟩, ?_⟩
      · cases set <;> exact h.timer
      · cases set <;> exact h.live
      · intro t ht
        simp only [PiBar.setTask, PiBar.setStatus_tasks] at ht
        rcases List.mem_or_eq_of_mem_set ht with hmem | rfl
        · exact h.starts t hmem
        · exact .inr rfl
      · have hpos : 0 < s.tasks.count .polling :=
          List.count_pos_iff.mpr (hget ▸ List.getElem_mem hlt)
        have hone := countP_statusEvents set r
        have hcount : (s.tasks.set i .over).count .polling = s.tasks.count .polling - 1 := by
          rw [List.count_set hlt, hget]
          rfl
        simp only [PiBar.polls, PiBar.setTask, PiBar.setStatus_tasks, hcount]
        omega
    · exact absurd hs (by simp)
  | shutdown =>
    obtain ⟨rfl, rfl⟩ := Prod.mk.inj (Option.some.inj hs)
    have hclear : s.clearTimer = s := by simp [PiBar.clearTimer, h.timer]
    refine ⟨⟨rfl, ?_, ?_⟩, ?_⟩
    · simpa [hclear] using h.live
    · simpa [hclear, NoStarts] using h.starts
    · simp [hclear, PiBar.polls, BarEvent.isWrote]

/-- The end of the last session. -/
theorem quiet_shutdown (h : TimersKnown s) (hstarts : NoStarts s)
    (hs : (piBar host).step s .shutdown = some (s', ev)) :
    Quiet s' ∧ ev = [.closed] ∧ s'.polls = s.polls := by
  obtain ⟨rfl, rfl⟩ := Prod.mk.inj (Option.some.inj hs)
  refine ⟨⟨rfl, h.clearTimer, ?_⟩, rfl, ?_⟩
  · simpa [NoStarts] using hstarts
  · simp [PiBar.polls]

/-- **Without another start** only the polls that are under way are shown. -/
theorem Quiet.exec (h : Quiet s) {as : List BarAct} (has : ∀ a ∈ as, a.isStart = false)
    (hx : (piBar host).exec s as = some (s', ev)) :
    Quiet s' ∧ ev.countP BarEvent.isWrote + s'.polls ≤ s.polls := by
  induction as generalizing s ev with
  | nil =>
    obtain ⟨rfl, rfl⟩ := Prod.mk.inj (Option.some.inj hx)
    exact ⟨h, by simp⟩
  | cons a as ih =>
    simp only [EventSystem.exec] at hx
    split at hx
    · exact absurd hx (by simp)
    · next s₁ ev₁ hs =>
      obtain ⟨hquiet, hfirst⟩ := h.step (has a List.mem_cons_self) hs
      split at hx
      · exact absurd hx (by simp)
      · next s₂ ev₂ hx' =>
        obtain ⟨rfl, rfl⟩ := Prod.mk.inj (Option.some.inj hx)
        obtain ⟨hlast, hrest⟩ := ih hquiet (fun b hb => has b (List.mem_cons_of_mem a hb)) hx'
        refine ⟨hlast, ?_⟩
        rw [List.countP_append]
        omega

end Invariant

/-! ## The result -/

/-- **The status bar**, in every run in which it can be set when a session starts: at most one
timer runs; what is shown was made for the current session, from the last reply that was shown,
unless nothing was shown since the last one has ended; and once a session has ended while no
start was under way, no timer runs and only the polls that are under way are shown, until another
session starts. -/
theorem status_bar_current {host : BarHost} {tr : List BarEvent} {s : PiBar}
    (h : (piBar host).Run StartsShow tr s) :
    s.live.length ≤ 1 ∧ (isStale tr = true ∨ ShowsCurrent host tr s) ∧
      (NoStarts s → ∀ as s' ev, (∀ a ∈ as, a.isStart = false) →
        (piBar host).exec s (.shutdown :: as) = some (s', ev) →
          s'.live = [] ∧ ev.countP BarEvent.isWrote ≤ s.polls) := by
  have hinv : TimersKnown s ∧ (isStale tr = true ∨ ShowsCurrent host tr s) := by
    refine h.invariant (I := fun tr s =>
      TimersKnown s ∧ (isStale tr = true ∨ ShowsCurrent host tr s)) ?_ ?_
    · rintro s rfl
      exact ⟨rfl, .inr rfl⟩
    · rintro tr s a s' ev - hok hs ⟨htimers, hshows⟩
      exact ⟨htimers.step hs, ShowsCurrent.step hshows hok hs⟩
  obtain ⟨htimers, hshows⟩ := hinv
  refine ⟨?_, hshows, fun hstarts as s' ev has hx => ?_⟩
  · rw [htimers]
    cases s.timer <;> simp
  · simp only [EventSystem.exec] at hx
    split at hx
    · exact absurd hx (by simp)
    · next s₁ ev₁ hs =>
      obtain ⟨hquiet, rfl, hpolls⟩ := quiet_shutdown htimers hstarts hs
      split at hx
      · exact absurd hx (by simp)
      · next s₂ ev₂ hx' =>
        obtain ⟨rfl, rfl⟩ := Prod.mk.inj (Option.some.inj hx)
        obtain ⟨hlast, hcount⟩ := hquiet.exec has hx'
        refine ⟨hlast.live, ?_⟩
        rw [List.countP_append]
        have hnone : [BarEvent.closed].countP BarEvent.isWrote = 0 := rfl
        omega

/-- Two sessions start at once and one timer runs; it has fired, and its poll is under way, when
the session ends. -/
theorem status_bar_current_two :
    ∃ tr s, (piBar londonBar).Run StartsShow tr s ∧
      (s.live = [1] ∧ s.currentSid = some "b" ∧ s.polls = 1) ∧ ShowsCurrent londonBar tr s ∧
      ∀ r set s' ev, (piBar londonBar).exec s [.shutdown, .reply 2 r set] = some (s', ev) →
        s'.live = [] ∧ ev.countP BarEvent.isWrote ≤ 1 := by
  obtain ⟨tr, s, h, hp⟩ := Run.reaches (piBar londonBar) StartsShow
    [.start (some (some "a")) true, .start (some (some "b")) true, .settled 0, .settled 1,
      .reply 0 none true, .reply 1 none true, .tick 1]
    (fun tr s => decide (isStale tr = false ∧ s.live = [1] ∧ s.currentSid = some "b" ∧
      s.polls = 1) && s.tasks.all fun t => decide (t = .polling ∨ t = .over))
    rfl (by decide) (by decide)
  obtain ⟨hstate, htasks⟩ := Bool.and_eq_true_iff.mp hp
  obtain ⟨hstale, hlive, hsid, hpolls⟩ := of_decide_eq_true hstate
  obtain ⟨-, hshows, hquiet⟩ := status_bar_current h
  have hcurrent : ShowsCurrent londonBar tr s :=
    hshows.resolve_left fun htrue => Bool.false_ne_true (hstale.symm.trans htrue)
  have hstarts : NoStarts s := fun t ht => of_decide_eq_true (List.all_eq_true.mp htasks t ht)
  refine ⟨tr, s, h, ⟨hlive, hsid, hpolls⟩, hcurrent, fun r set s' ev hx => ?_⟩
  have hlast := hquiet hstarts [.reply 2 r set] s' ev (by simp [BarAct.isStart]) hx
  rwa [hpolls] at hlast

end LlmCtl
