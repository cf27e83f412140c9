/-
# The drain loop on the clock (`proxy.rs`)

`ProxyResponse` lets the timers of `stream_and_record` fire at any time.  Here the loop has a
clock: it looks at the overall deadline before each wait, the idle timer fires thirty seconds
into a wait, and the client of the daemon gives the whole request five minutes.  A send has no
timer.

* `streaming_of_run`: the loop on the clock is the task of `ProxyResponse`.
* `never_looks_complete_of_in_time`: a client that is still there can tell a complete answer from
  one that was cut short, unless a send that waited for it was done after the deadline: the exit
  that follows sends no error.
* `progress_of_room`: the task never depends on its client, as long as the channel has room when a
  send begins; else it waits for the client, and no timer ends that wait.
-/
import LlmCtl.ProxyResponse

namespace LlmCtl

open EventSystem

/-! ## The loop -/

/-- `idle`, in milliseconds. -/
def idleTimeout : ℕ := 30 * 1000

/-- How far `deadline` lies ahead when the task starts. -/
def overallDeadline : ℕ := 1800 * 1000

/-- The `timeout` of the `reqwest` client (`main.rs`), for a request with its whole response. -/
def totalTimeout : ℕ := 300 * 1000

/-- The task and its client on the clock, with the end of the request's time and the start of the
wait for the next chunk. -/
structure DrainLoop where
  stream : Stream
  now : ℕ
  deadline : ℕ
  total : ℕ
  waitingSince : Option ℕ

inductive LoopAct where
  /-- Time passes. -/
  | tick (ms : ℕ)
  /-- The deadline has not passed, and the wait for the next chunk begins. -/
  | wait
  /-- The task, its timers, the worker, the database or the client. -/
  | stream (a : StreamAct)
  deriving DecidableEq, Repr

/-- How the loop is left. -/
inductive LoopEnd where
  | eof
  | deadline
  | idle
  | broken
  deriving DecidableEq, Repr

/-- Does the task wait for somebody?  Else it computes, and no time passes. -/
def DrainLoop.waits (l : DrainLoop) : Bool :=
  match l.stream.pc with
  | .reading => l.waitingSince.isSome
  | .sending _ => l.stream.open_ && decide (channelCapacity ≤ l.stream.queue.length)
  | .recording | .ended => true

/-- Does the clock allow the action? -/
def DrainLoop.allows (l : DrainLoop) : StreamAct → Bool
  | .take | .leave => true
  | .deadline => l.waitingSince.isNone && decide (l.deadline < l.now)
  | .idle => l.waitingSince.any fun t => decide (t + idleTimeout ≤ l.now)
  -- When the request's time is over, the body's next poll is an error.
  | .next =>
    decide (l.stream.pc = .reading → l.waitingSince.isSome = true ∧ l.now < l.total)
  | .broken | .recorded _ => decide (l.stream.pc = .reading → l.waitingSince.isSome = true)

/-- The client's actions leave the task where it is. -/
def StreamAct.ofClient : StreamAct → Bool
  | .take | .leave => true
  | .next | .deadline | .idle | .broken | .recorded _ => false

/-- The exit of the loop that an action is. -/
def Stream.loopEnd (s : Stream) (a : StreamAct) : List LoopEnd :=
  match s.pc, a with
  | .reading, .next => if s.rest = [] then [.eof] else []
  | .reading, .deadline => [.deadline]
  | .reading, .idle => [.idle]
  | .reading, .broken => [.broken]
  | _, _ => []

/-- One step of the loop on the clock. -/
def loopStep (env : StreamEnv) (l : DrainLoop) : LoopAct → Option (DrainLoop × List LoopEnd)
  | .tick ms => if l.waits then some ({ l with now := l.now + ms }, []) else none
  | .wait =>
    if l.stream.pc = .reading ∧ l.waitingSince = none ∧ l.now ≤ l.deadline then
      some ({ l with waitingSince := some l.now }, [])
    else none
  | .stream a =>
    if l.allows a then
      (streamStep env l.stream a).map fun r =>
        ({ l with
            stream := r.1
            waitingSince := if a.ofClient then l.waitingSince else none },
          l.stream.loopEnd a)
    else none

/-- The loop of a response, from the start of the task on. -/
def drainLoop (env : StreamEnv) (u : UpstreamResponse) : EventSystem DrainLoop LoopAct LoopEnd where
  init := fun l => l.stream.begins u ∧ l.deadline = l.now + overallDeadline ∧
    (∃ started ≤ l.now, l.total = started + totalTimeout) ∧ l.waitingSince = none
  step := loopStep env

/-! ## What a step can do -/

section Step

variable {env : StreamEnv} {u : UpstreamResponse} {l l' : DrainLoop} {ev : List LoopEnd}

/-- A step of the task or its client that the clock allows. -/
theorem loopStep_stream {a : StreamAct} (h : loopStep env l (.stream a) = some (l', ev)) :
    l.allows a = true ∧ streamStep env l.stream a = some (l'.stream, []) ∧
      ev = l.stream.loopEnd a := by
  simp only [loopStep] at h
  split at h
  · next hallows =>
    obtain ⟨⟨s, nothing⟩, hs, heq⟩ := Option.map_eq_some_iff.mp h
    obtain ⟨rfl, rfl⟩ := Prod.mk.inj heq
    obtain rfl : nothing = [] := List.eq_nil_of_subset_nil fun e _ => nomatch e
    exact ⟨hallows, hs, rfl⟩
  · exact absurd h (by simp)

/-- **A step of the loop** passes time, begins a wait, or is one of the task and its client. -/
theorem loopStep_cases {a : LoopAct} (h : loopStep env l a = some (l', ev)) :
    (l'.stream = l.stream ∧ ev = []) ∨
      ∃ b, a = .stream b ∧ streamStep env l.stream b = some (l'.stream, []) ∧
        ev = l.stream.loopEnd b := by
  cases a with
  | tick ms =>
    simp only [loopStep] at h
    split at h
    · obtain ⟨rfl, rfl⟩ := Prod.mk.inj (Option.some.inj h)
      exact .inl ⟨rfl, rfl⟩
    · exact absurd h (by simp)
  | wait =>
    simp only [loopStep] at h
    split at h
    · obtain ⟨rfl, rfl⟩ := Prod.mk.inj (Option.some.inj h)
      exact .inl ⟨rfl, rfl⟩
    · exact absurd h (by simp)
  | stream b =>
    obtain ⟨-, hstep, hev⟩ := loopStep_stream h
    exact .inr ⟨b, rfl, hstep, hev⟩

end Step

/-- **What a step of the task or its client is.** -/
inductive Stream.Moves (env : StreamEnv) (s : Stream) : StreamAct → Stream → Prop
  | read {chunk : List UInt8} {rest : List (List UInt8)} :
      s.pc = .reading → s.rest = chunk :: rest → s.clientGone = false →
      s.Moves env .next { { s with rest := rest }.collect env chunk with
        pc := .sending (.data chunk) }
  | drain {chunk : List UInt8} {rest : List (List UInt8)} :
      s.pc = .reading → s.rest = chunk :: rest → s.clientGone = true →
      s.Moves env .next { { s with rest := rest }.collect env chunk with pc := .reading }
  | eof : s.pc = .reading → s.rest = [] → s.Moves env .next (s.leaveLoop env)
  | send {item : Item} :
      s.pc = .sending item → s.open_ = true → s.queue.length < channelCapacity →
      s.Moves env .next ({ s with queue := s.queue ++ [item] }.afterSend env item)
  | sendFails {item : Item} :
      s.pc = .sending item → s.open_ = false →
      s.Moves env .next ({ s with clientGone := true }.afterSend env item)
  | deadline : s.pc = .reading → s.Moves env .deadline (s.leaveLoop env)
  | idle : s.pc = .reading → s.Moves env .idle (s.abort env)
  | broken : s.pc = .reading → s.Moves env .broken (s.abort env)
  | recorded {outcome : Option RecordEnd} :
      s.pc = .recording → s.Moves env (.recorded outcome) { s with pc := .ended }
  | take {item : Item} {queue : List Item} :
      s.queue = item :: queue → s.open_ = true →
      s.Moves env .take { s with queue := queue, received := s.received ++ [item] }
  | leave : s.open_ = true → s.Moves env .leave { s with open_ := false }

/-- A chunk for a client that is gone is read and not sent. -/
theorem streamStep_drain {env : StreamEnv} {s : Stream} (hgone : s.clientGone = true)
    {chunk : List UInt8} {rest : List (List UInt8)} (hp : s.pc = .reading)
    (hr : s.rest = chunk :: rest) :
    streamStep env s .next =
      some ({ { s with rest := rest }.collect env chunk with pc := .reading }, []) := by
  have hstill : ({ s with rest := rest }.collect env chunk).clientGone = true := by
    simpa using hgone
  unfold streamStep
  simp only [hp, hr] at hstill ⊢
  rw [hstill]
  rfl

/-- An action of the read loop. -/
theorem Stream.of_readLoop {s x s' : Stream} {ev : List Empty}
    (h : (match s.pc with
      | .reading => some (x, [])
      | _ => none) = some (s', ev)) : s.pc = .reading ∧ s' = x := by
  split at h
  · next hp => exact ⟨hp, (Prod.mk.inj (Option.some.inj h)).1.symm⟩
  · exact absurd h (by simp)

/-- A step is one of those. -/
theorem Stream.moves_of_step {env : StreamEnv} {s s' : Stream} {a : StreamAct}
    {ev : List Empty} (h : streamStep env s a = some (s', ev)) : s.Moves env a s' := by
  cases a with
  | next =>
    cases hp : s.pc with
    | reading =>
      cases hr : s.rest with
      | nil =>
        rw [streamStep_eof hp hr] at h
        obtain ⟨rfl, -⟩ := Prod.mk.inj (Option.some.inj h)
        exact .eof hp hr
      | cons chunk rest =>
        cases hgone : s.clientGone with
        | false =>
          rw [streamStep_chunk hgone hp hr] at h
          obtain ⟨rfl, -⟩ := Prod.mk.inj (Option.some.inj h)
          exact .read hp hr hgone
        | true =>
          rw [streamStep_drain hgone hp hr] at h
          obtain ⟨rfl, -⟩ := Prod.mk.inj (Option.some.inj h)
          exact .drain hp hr hgone
    | sending item =>
      simp only [streamStep, hp] at h
      split at h
      · next hopen =>
        split at h
        · next hroom =>
          obtain ⟨rfl, -⟩ := Prod.mk.inj (Option.some.inj h)
          exact .send hp hopen hroom
        · exact absurd h (by simp)
      · next hclosed =>
        obtain ⟨rfl, -⟩ := Prod.mk.inj (Option.some.inj h)
        exact .sendFails hp (Bool.eq_false_iff.mpr hclosed)
    | recording => simp [streamStep, hp] at h
    | ended => simp [streamStep, hp] at h
  | deadline =>
    obtain ⟨hp, rfl⟩ := of_readLoop h
    exact .deadline hp
  | idle =>
    obtain ⟨hp, rfl⟩ := of_readLoop h
    exact .idle hp
  | broken =>
    obtain ⟨hp, rfl⟩ := of_readLoop h
    exact .broken hp
  | recorded outcome =>
    simp only [streamStep] at h
    split at h
    · next hp =>
      obtain ⟨rfl, -⟩ := Prod.mk.inj (Option.some.inj h)
      exact .recorded hp
    · exact absurd h (by simp)
  | take =>
    simp only [streamStep] at h
    split at h
    · next item queue hq =>
      split at h
      · next hopen =>
        obtain ⟨rfl, -⟩ := Prod.mk.inj (Option.some.inj h)
        exact .take hq hopen
      · exact absurd h (by simp)
    · exact absurd h (by simp)
  | leave =>
    simp only [streamStep] at h
    split at h
    · next hopen =>
      obtain ⟨rfl, -⟩ := Prod.mk.inj (Option.some.inj h)
      exact .leave hopen
    · exact absurd h (by simp)

/-- **The loop on the clock is the task of `ProxyResponse`.** -/
theorem streaming_of_run {env : StreamEnv} {u : UpstreamResponse} {ok : List LoopEnd → DrainLoop →
    LoopAct → Prop} {tr : List LoopEnd} {l : DrainLoop} (h : (drainLoop env u).Run ok tr l) :
    (streaming env u).Run Anything [] l.stream := by
  have hinit : ∀ l, (drainLoop env u).init l → (streaming env u).init l.stream :=
    fun l hl => hl.1
  refine h.project DrainLoop.stream (fun _ => []) rfl (fun _ _ => rfl) hinit ?_
  intro tr l a l' ev _ _ hs
  rcases loopStep_cases hs with ⟨hsame, -⟩ | ⟨b, -, hstep, -⟩
  · exact .inl ⟨hsame, rfl⟩
  · exact .inr ⟨b, trivial, hstep⟩

/-! ## A body that ends -/

/-- Is a chunk on its way into the channel? -/
def StreamPc.sendsData : StreamPc → Bool
  | .sending (.data _) => true
  | _ => false

/-- No send of a chunk to a client that is there is done after the overall deadline. -/
def SendsInTime (_ : List LoopEnd) (l : DrainLoop) (a : LoopAct) : Prop :=
  a = .stream .next → l.stream.pc.sendsData = true → l.stream.open_ = true → l.now ≤ l.deadline

instance (tr : List LoopEnd) (l : DrainLoop) (a : LoopAct) : Decidable (SendsInTime tr l a) :=
  inferInstanceAs (Decidable (a = .stream .next → l.stream.pc.sendsData = true →
    l.stream.open_ = true → l.now ≤ l.deadline))

/-- The items that the client has got, or that are on their way to it. -/
def Stream.sent (s : Stream) : List Item := s.received ++ s.queue ++ s.pc.item

/-- The task is past its read loop. -/
def StreamPc.pastLoop (pc : StreamPc) : Prop := pc = .recording ∨ pc = .ended

/-- **What the client is told**, by the exit of the loop: all of the answer, an error, or, at the
deadline, nothing. -/
inductive RelayStage (u : UpstreamResponse) (s : Stream) : List LoopEnd → Prop
  | relaying : s.OnTheWay u → ¬ s.pc.pastLoop → RelayStage u s []
  | complete : s.OnTheWay u → s.pc.pastLoop → RelayStage u s [.eof]
  | cutShort {why : LoopEnd} :
      why ≠ .eof → why ≠ .deadline → s.clientGone = false → .error ∈ s.sent →
      s.pc = .sending .error ∨ s.pc.pastLoop → RelayStage u s [why]
  | lapsed : s.clientGone = false → .error ∉ s.sent → s.pc.pastLoop → RelayStage u s [.deadline]

section Relay

variable {env : StreamEnv} {u : UpstreamResponse} {s s' : Stream} {tr : List LoopEnd}

theorem Stream.leaveLoop_pastLoop : (s.leaveLoop env).pc.pastLoop := by
  unfold leaveLoop StreamPc.pastLoop
  split
  · exact .inr rfl
  · exact .inl rfl

theorem RelayStage.clientGone (h : RelayStage u s tr) : s.clientGone = false := by
  cases h with
  | relaying hway _ | complete hway _ => exact hway.there
  | cutShort _ _ hgone _ _ | lapsed hgone _ _ => exact hgone

/-- In the read loop nothing has been decided yet. -/
theorem RelayStage.of_reading (h : RelayStage u s tr) (hp : s.pc = .reading) :
    tr = [] ∧ s.OnTheWay u := by
  cases h with
  | relaying hway _ => exact ⟨rfl, hway⟩
  | complete _ hpast => simp [StreamPc.pastLoop, hp] at hpast
  | cutShort _ _ _ _ hpc => simp [StreamPc.pastLoop, hp] at hpc
  | lapsed _ _ hpast => simp [StreamPc.pastLoop, hp] at hpast

/-- An exit with an error tells the client. -/
theorem RelayStage.aborted (hway : s.OnTheWay u) {why : LoopEnd} (heof : why ≠ .eof)
    (hdeadline : why ≠ .deadline) : RelayStage u (s.abort env) [why] := by
  have habort : s.abort env = { s with pc := .sending .error } := by
    unfold Stream.abort
    rw [hway.there]
    rfl
  rw [habort]
  exact .cutShort heof hdeadline hway.there (by simp [Stream.sent, StreamPc.item]) (.inl rfl)

/-- No error is on its way while the answer is. -/
theorem Stream.OnTheWay.error_not_sent (h : s.OnTheWay u) : .error ∉ s.sent := by
  intro herr
  have hmem : Item.error ∈ u.chunks.map Item.data := by
    rw [← h.items]
    exact List.mem_append_left _ herr
  obtain ⟨chunk, -, heq⟩ := List.mem_map.mp hmem
  exact absurd heq (by simp)

/-- **A step keeps the stage**, as long as the client stays. -/
theorem RelayStage.step {a : StreamAct} (h : RelayStage u s tr) (hs : s.Moves env a s')
    (hopen : s'.open_ = true) : RelayStage u s' (s.loopEnd a ++ tr) := by
  cases hs with
  | read hp hr _ =>
    obtain ⟨rfl, hway⟩ := h.of_reading hp
    have hev : s.loopEnd .next = [] := by simp [Stream.loopEnd, hp, hr]
    rw [hev]
    exact .relaying (hway.read hp hr) (by simp [StreamPc.pastLoop])
  | drain _ _ hgone => exact absurd (h.clientGone.symm.trans hgone) (by simp)
  | eof hp hr =>
    obtain ⟨rfl, hway⟩ := h.of_reading hp
    have hev : s.loopEnd .next = [.eof] := by simp [Stream.loopEnd, hp, hr]
    rw [hev]
    exact .complete (hway.leaveLoop (by rw [hp]; rfl) hr) Stream.leaveLoop_pastLoop
  | deadline hp =>
    obtain ⟨rfl, hway⟩ := h.of_reading hp
    have hev : s.loopEnd .deadline = [.deadline] := by simp [Stream.loopEnd, hp]
    rw [hev]
    refine .lapsed hway.there ?_ Stream.leaveLoop_pastLoop
    have hnone := hway.error_not_sent
    unfold Stream.sent at hnone ⊢
    rw [hp] at hnone
    rw [Stream.leaveLoop_item]
    exact hnone
  | idle hp =>
    obtain ⟨rfl, hway⟩ := h.of_reading hp
    have hev : s.loopEnd .idle = [.idle] := by simp [Stream.loopEnd, hp]
    rw [hev]
    exact .aborted hway (by simp) (by simp)
  | broken hp =>
    obtain ⟨rfl, hway⟩ := h.of_reading hp
    have hev : s.loopEnd .broken = [.broken] := by simp [Stream.loopEnd, hp]
    rw [hev]
    exact .aborted hway (by simp) (by simp)
  | @send item hp _ _ =>
    have hev : s.loopEnd .next = [] := by simp [Stream.loopEnd, hp]
    rw [hev]
    cases h with
    | relaying hway _ =>
      cases item with
      | error => exact absurd hp hway.not_error
      | data chunk => exact .relaying (hway.sent hp) (by simp [Stream.afterSend, StreamPc.pastLoop])
    | complete _ hpast => simp [StreamPc.pastLoop, hp] at hpast
    | cutShort heof hdeadline hgone _ hpc =>
      obtain rfl : item = .error := by simpa [StreamPc.pastLoop, hp] using hpc
      refine .cutShort heof hdeadline hgone ?_ (.inr Stream.leaveLoop_pastLoop)
      simp [Stream.afterSend, Stream.sent, Stream.leaveLoop]
    | lapsed _ _ hpast => simp [StreamPc.pastLoop, hp] at hpast
  | @sendFails item hp hclosed =>
    cases item <;> exact absurd (hopen.symm.trans hclosed) (by simp)
  | recorded hp =>
    have hev : ∀ outcome, s.loopEnd (.recorded outcome) = [] := by simp [Stream.loopEnd, hp]
    rw [hev]
    have hitem : s.pc.item = StreamPc.item .ended := by rw [hp]; rfl
    cases h with
    | relaying _ hpast => exact absurd (.inl hp) hpast
    | complete hway _ =>
      refine .complete ⟨hway.open_, hway.there, ?_, fun _ => hway.drained (.inl hp)⟩ (.inr rfl)
      rw [← hitem]
      exact hway.items
    | cutShort heof hdeadline hgone herr _ =>
      unfold Stream.sent at herr
      rw [hitem] at herr
      exact .cutShort heof hdeadline hgone herr (.inr (.inr rfl))
    | lapsed hgone herr _ =>
      unfold Stream.sent at herr
      rw [hitem] at herr
      exact .lapsed hgone herr (.inr rfl)
  | @take item queue hq _ =>
    have hev : s.loopEnd .take = [] := by cases hp : s.pc <;> simp [Stream.loopEnd, hp]
    have hsent : Stream.sent { s with queue := queue, received := s.received ++ [item] } =
        s.sent := by simp [Stream.sent, hq]
    rw [hev]
    cases h with
    | relaying hway hpast => exact .relaying (hway.taken hq) hpast
    | complete hway hpast => exact .complete (hway.taken hq) hpast
    | cutShort heof hdeadline hgone herr hpc =>
      exact .cutShort heof hdeadline hgone (hsent ▸ herr) hpc
    | lapsed hgone herr hpast => exact .lapsed hgone (hsent ▸ herr) hpast
  | leave _ => exact absurd hopen (by simp)

/-- A client that is there was there before. -/
theorem Stream.Moves.open_of_open {a : StreamAct} (h : s.Moves env a s')
    (hopen : s'.open_ = true) : s.open_ = true := by
  cases h with
  | read _ _ _ | drain _ _ _ => simpa using hopen
  | idle _ | broken _ =>
    unfold Stream.abort at hopen
    split at hopen <;> exact hopen
  | @send item _ h _ => exact h
  | @sendFails item _ _ => cases item <;> exact hopen
  | take _ h | leave h => exact h
  | eof _ _ | deadline _ | recorded _ => exact hopen

end Relay

/-- In every run a client that is still there is at some stage. -/
theorem relayStage_of_run {env : StreamEnv} {u : UpstreamResponse} {ok : List LoopEnd → DrainLoop →
    LoopAct → Prop} {tr : List LoopEnd} {l : DrainLoop} (h : (drainLoop env u).Run ok tr l)
    (hopen : l.stream.open_ = true) : RelayStage u l.stream tr := by
  refine h.invariant (I := fun tr l => l.stream.open_ = true → RelayStage u l.stream tr)
    ?_ ?_ hopen
  · rintro l ⟨⟨hrest, hgone, hqueue, hthere, hreceived, hp⟩, -, -, -⟩ -
    refine .relaying ⟨hthere, hgone, ?_, by simp [hp]⟩ (by simp [StreamPc.pastLoop, hp])
    rw [hrest, hqueue, hreceived, hp]
    rfl
  · intro tr l a l' ev _ _ hs hstage hopen'
    rcases loopStep_cases hs with ⟨hsame, rfl⟩ | ⟨b, -, hstep, rfl⟩
    · rw [hsame] at hopen' ⊢
      exact hstage hopen'
    · have hmoves := Stream.moves_of_step hstep
      exact (hstage (hmoves.open_of_open hopen')).step hmoves hopen'

/-- The exit of an action is the deadline's for no other action. -/
theorem Stream.loopEnd_deadline {s : Stream} {a : StreamAct} (h : .deadline ∈ s.loopEnd a) :
    a = .deadline := by
  unfold loopEnd at h
  split at h
  · split at h <;> simp at h
  · rfl
  · simp at h
  · simp at h
  · simp at h

/-- The deadline is looked at in the loop only. -/
theorem Stream.Moves.of_deadline {env : StreamEnv} {s s' : Stream}
    (h : s.Moves env .deadline s') : s.pc = .reading := by
  cases h with
  | deadline hp => exact hp

/-- The loop is at its top in time, for a client that is there. -/
def DrainLoop.TopInTime (l : DrainLoop) : Prop :=
  l.stream.open_ = true → l.stream.pc = .reading → l.waitingSince = none → l.now ≤ l.deadline

theorem Stream.leaveLoop_ne_reading {env : StreamEnv} {s : Stream} :
    (s.leaveLoop env).pc ≠ .reading := by
  rcases @Stream.leaveLoop_pastLoop env s with hp | hp <;> simp [hp]

/-- **A step keeps the top of the loop in time**: the way back to it is a send, or the read of a
chunk for nobody. -/
theorem DrainLoop.TopInTime.step {env : StreamEnv} {l l' : DrainLoop} {a : LoopAct}
    {tr ev : List LoopEnd} (h : l.TopInTime) (hthere : l.stream.open_ = true →
      l.stream.clientGone = false) (hok : SendsInTime tr l a)
    (hs : loopStep env l a = some (l', ev)) : l'.TopInTime := by
  intro hopen' hp' hwait'
  cases a with
  | tick ms =>
    simp only [loopStep] at hs
    split at hs
    · next hw =>
      obtain ⟨rfl, -⟩ := Prod.mk.inj (Option.some.inj hs)
      have hp : l.stream.pc = .reading := hp'
      have hnone : l.waitingSince = none := hwait'
      exact absurd hw (by simp [waits, hp, hnone])
    · exact absurd hs (by simp)
  | wait =>
    simp only [loopStep] at hs
    split at hs
    · obtain ⟨rfl, -⟩ := Prod.mk.inj (Option.some.inj hs)
      exact absurd hwait' (by simp)
    · exact absurd hs (by simp)
  | stream b =>
    obtain ⟨-, hstep, -⟩ := loopStep_stream hs
    have hmoves := Stream.moves_of_step hstep
    have hopen := hmoves.open_of_open hopen'
    obtain ⟨hnow, hdeadline, hwait⟩ : l'.now = l.now ∧ l'.deadline = l.deadline ∧
        l'.waitingSince = if b.ofClient then l.waitingSince else none := by
      simp only [loopStep] at hs
      split at hs
      · obtain ⟨r, -, heq⟩ := Option.map_eq_some_iff.mp hs
        obtain ⟨rfl, -⟩ := Prod.mk.inj heq
        exact ⟨rfl, rfl, rfl⟩
      · exact absurd hs (by simp)
    rw [hnow, hdeadline]
    generalize l'.stream = s' at hmoves hopen' hp'
    cases hmoves with
    | read _ _ _ => exact absurd hp' (by simp)
    | drain _ _ hgone => exact absurd ((hthere hopen).symm.trans hgone) (by simp)
    | eof _ _ | deadline _ => exact absurd hp' Stream.leaveLoop_ne_reading
    | @send item hp _ _ =>
      cases item with
      | data chunk => exact hok rfl (by simp [hp, StreamPc.sendsData]) hopen
      | error => exact absurd hp' Stream.leaveLoop_ne_reading
    | @sendFails item _ hclosed => exact absurd (hopen.symm.trans hclosed) (by simp)
    | idle _ | broken _ =>
      unfold Stream.abort at hp'
      split at hp'
      · exact absurd hp' Stream.leaveLoop_ne_reading
      · exact absurd hp' (by simp)
    | recorded _ => exact absurd hp' (by simp)
    | take _ _ => exact h hopen hp' (hwait.symm.trans hwait')
    | leave _ => exact absurd hopen' (by simp)

/-- In time, the loop comes to its top in time for a client that is there, and does not leave it
at the deadline. -/
theorem no_deadline_of_in_time {env : StreamEnv} {u : UpstreamResponse} {tr : List LoopEnd}
    {l : DrainLoop} (h : (drainLoop env u).Run SendsInTime tr l) :
    l.TopInTime ∧ (l.stream.open_ = true → .deadline ∉ tr) := by
  refine h.invariant (I := fun tr l => l.TopInTime ∧ (l.stream.open_ = true → .deadline ∉ tr))
    ?_ ?_
  · rintro l ⟨-, hdeadline, -, -⟩
    exact ⟨fun _ _ _ => hdeadline ▸ Nat.le_add_right _ _, by simp⟩
  · rintro tr l a l' ev hrun hok hs ⟨htop, ih⟩
    have hthere := fun hopen => (relayStage_of_run hrun hopen).clientGone
    refine ⟨htop.step hthere hok hs, fun hopen' => ?_⟩
    rcases loopStep_cases hs with ⟨hsame, rfl⟩ | ⟨b, rfl, hstep, rfl⟩
    · exact ih (hsame ▸ hopen')
    · have hopen := (Stream.moves_of_step hstep).open_of_open hopen'
      intro hmem
      rcases List.mem_append.mp hmem with hnew | hold
      · obtain rfl := Stream.loopEnd_deadline hnew
        have hallows := (loopStep_stream hs).1
        simp only [DrainLoop.allows, Bool.and_eq_true, Option.isNone_iff_eq_none,
          decide_eq_true_eq] at hallows
        exact absurd (htop hopen (Stream.moves_of_step hstep).of_deadline hallows.1)
          (Nat.not_le_of_lt hallows.2)
      · exact ih hopen hold

/-- **What the end of the body says** to a client that is still there. -/
structure DrainLoop.Honest (u : UpstreamResponse) (tr : List LoopEnd) (l : DrainLoop) : Prop where
  /-- Without an error, the worker's stream has come to a clean end, and all of it is here. -/
  complete : l.stream.open_ = true → l.stream.Done → .error ∉ l.stream.received →
    tr = [.eof] ∧ (l.stream.response u).body = u.chunks.flatten
  /-- When the loop has stopped early an error is on its way. -/
  cutShort : l.stream.open_ = true → ∀ why ∈ tr, why ≠ .eof → .error ∈ l.stream.sent
  /-- So the client has seen it when its body ends. -/
  seen : l.stream.open_ = true → l.stream.Done → ∀ why ∈ tr, why ≠ .eof →
    .error ∈ l.stream.received

/-- At the end nothing is on its way. -/
theorem Stream.Done.sent {s : Stream} (h : s.Done) : s.sent = s.received := by
  unfold Stream.sent
  rw [h.1, h.2]
  simp [StreamPc.item]

/-- **A body that was cut short does not look complete**, unless the client let a send wait past
the deadline: in every run in which the sends to a client that is there are done in time, the end
of the body says what happened. -/
theorem never_looks_complete_of_in_time {env : StreamEnv} {u : UpstreamResponse}
    {tr : List LoopEnd} {l : DrainLoop} (h : (drainLoop env u).Run SendsInTime tr l) :
    l.Honest u tr := by
  have hcut : l.stream.open_ = true → ∀ why ∈ tr, why ≠ .eof → .error ∈ l.stream.sent := by
    intro hopen why hmem heof
    have hnone := (no_deadline_of_in_time h).2 hopen
    cases relayStage_of_run h hopen with
    | relaying _ _ => simp at hmem
    | complete _ _ => exact absurd (List.mem_singleton.mp hmem) heof
    | cutShort _ _ _ herr _ => exact herr
    | lapsed _ _ _ => simp at hnone
  refine ⟨fun hopen hdone herr => ?_, hcut, fun hopen hdone why hmem heof => ?_⟩
  · have hnone := (no_deadline_of_in_time h).2 hopen
    rw [← hdone.sent] at herr
    cases relayStage_of_run h hopen with
    | relaying _ hpast => exact absurd (.inr hdone.1) hpast
    | complete hway _ => exact ⟨rfl, hway.body.2 hdone⟩
    | cutShort _ _ _ hmem _ => exact absurd hmem herr
    | lapsed _ _ _ => simp at hnone
  · rw [← hdone.sent]
    exact hcut hopen why hmem heof

/-- A streamed answer of two chunks, with a repeated header. -/
def sampleStream : UpstreamResponse where
  status := 200
  headers := .ofPairs [("content-type", asciiBytes "text/event-stream"),
    ("set-cookie", asciiBytes "a"), ("connection", asciiBytes "close"),
    ("set-cookie", asciiBytes "b")]
  chunks := [asciiBytes "data: 1\n", asciiBytes "data: 2\n"]

/-- A loop that has just begun. -/
def sampleLoop (u : UpstreamResponse) : DrainLoop where
  stream := ⟨u.chunks, ({}, []), false, [], true, [], .reading⟩
  now := 0
  deadline := overallDeadline
  total := totalTimeout
  waitingSince := none

theorem sampleLoop_init (env : StreamEnv) (u : UpstreamResponse) :
    (drainLoop env u).init (sampleLoop u) :=
  ⟨⟨rfl, rfl, rfl, rfl, rfl, rfl⟩, (Nat.zero_add _).symm, ⟨0, le_rfl, (Nat.zero_add _).symm⟩, rfl⟩

/-- The worker stalls after its first chunk, and the client sees an error. -/
theorem never_looks_complete_stalled :
    ∃ tr l, (drainLoop ⟨fun _ => none, "s"⟩ sampleStream).Run SendsInTime tr l ∧
      l.stream.open_ = true ∧ l.stream.Done ∧ .idle ∈ tr ∧ l.Honest sampleStream tr := by
  obtain ⟨tr, l, h, hp⟩ := Run.reaches (drainLoop ⟨fun _ => none, "s"⟩ sampleStream) SendsInTime
    [.wait, .stream .next, .stream .next, .stream .take, .wait, .tick idleTimeout, .stream .idle,
      .stream .next, .stream (.recorded (some .stored)), .stream .take]
    (fun tr l => decide (l.stream.open_ = true ∧ (l.stream.pc = .ended ∧ l.stream.queue = []) ∧
      .idle ∈ tr))
    (sampleLoop_init _ _) (by decide) (by decide)
  obtain ⟨hopen, hdone, hidle⟩ := of_decide_eq_true hp
  exact ⟨tr, l, h, hopen, hdone, hidle, never_looks_complete_of_in_time h⟩

/-- A deadline that cuts the answer says nothing to a client that is there. -/
theorem error_not_sent_of_deadline {env : StreamEnv} {u : UpstreamResponse}
    {ok : List LoopEnd → DrainLoop → LoopAct → Prop} {tr : List LoopEnd} {l : DrainLoop}
    (h : (drainLoop env u).Run ok tr l) (hopen : l.stream.open_ = true) (hmem : .deadline ∈ tr) :
    .error ∉ l.stream.sent := by
  cases relayStage_of_run h hopen with
  | relaying _ _ => simp at hmem
  | complete _ _ => simp at hmem
  | cutShort _ hdeadline _ _ _ => exact absurd (List.mem_singleton.mp hmem).symm hdeadline
  | lapsed _ herr _ => exact herr

/-- After a send that was done too late the task has no other step than that exit. -/
theorem deadline_of_late {env : StreamEnv} {l l' : DrainLoop} {a : LoopAct} {ev : List LoopEnd}
    (h : loopStep env l a = some (l', ev)) (hp : l.stream.pc = .reading)
    (hwait : l.waitingSince = none) (hlate : l.deadline < l.now) :
    a = .stream .deadline ∨ a = .stream .take ∨ a = .stream .leave := by
  cases a with
  | tick ms => simp [loopStep, DrainLoop.waits, hp, hwait] at h
  | wait => simp [loopStep, Nat.not_le_of_lt hlate] at h
  | stream b =>
    have hallows := (loopStep_stream h).1
    cases b <;> simp_all [DrainLoop.allows]

/-- An answer of two chunks more than the channel holds. -/
def stalledStream : UpstreamResponse where
  status := 200
  headers := .empty
  chunks := List.replicate (channelCapacity + 2) (asciiBytes "data: 1\n")

/-- The task reads a chunk and sends it. -/
def readAndSend : List LoopAct := [.wait, .stream .next, .stream .next]

/-- **The client stalls** on the full channel for half an hour and reads on: the answer ends before
its last chunk, like one that is complete. -/
theorem lapsed_stream_looks_complete :
    ¬ ∀ tr l, (drainLoop ⟨fun _ => none, "s"⟩ stalledStream).Run Anything tr l →
      l.Honest stalledStream tr := by
  intro hall
  obtain ⟨tr, l, h, hp⟩ := Run.reaches (drainLoop ⟨fun _ => none, "s"⟩ stalledStream) Anything
    (List.flatten [(List.replicate channelCapacity readAndSend).flatten,
      [.wait, .stream .next, .tick (overallDeadline + 1), .stream .take, .stream .next,
        .stream .deadline, .stream (.recorded (some .stored))],
      List.replicate channelCapacity (.stream .take)])
    (fun tr l => decide (l.stream.open_ = true ∧ (l.stream.pc = .ended ∧ l.stream.queue = []) ∧
      .error ∉ l.stream.received ∧ tr ≠ [.eof]))
    (sampleLoop_init _ _) (admits_anything _ _ _) (by decide +kernel)
  obtain ⟨hopen, hdone, herr, htr⟩ := of_decide_eq_true hp
  exact htr ((hall tr l h).complete hopen hdone herr).1

/-! ## A task that goes on -/

/-- The actions of the task: with the worker, its timers and the database. -/
def LoopAct.ofTask : LoopAct → Bool
  | .tick _ => false
  | .wait => true
  | .stream a => !a.ofClient

/-- The task can go on, at once or after some time, whatever the client does. -/
def DrainLoop.Progress (env : StreamEnv) (l : DrainLoop) : Prop :=
  ∃ ms a l' ev, a.ofTask = true ∧ loopStep env { l with now := l.now + ms } a = some (l', ev)

/-- The channel takes another item. -/
def Stream.HasRoom (s : Stream) : Prop := s.open_ = true → s.queue.length < channelCapacity

/-- The action begins a send to the client. -/
def Stream.beginsSend (s : Stream) : StreamAct → Bool
  | .next => decide (s.pc = .reading) && !s.rest.isEmpty && !s.clientGone
  | .idle | .broken => decide (s.pc = .reading) && !s.clientGone
  | .deadline | .recorded _ | .take | .leave => false

instance (s : Stream) : Decidable s.HasRoom :=
  inferInstanceAs (Decidable (s.open_ = true → s.queue.length < channelCapacity))

/-- A send begins when the channel has room, or when the client has left. -/
def RoomToSend (_ : List LoopEnd) (l : DrainLoop) : LoopAct → Prop
  | .stream a => l.stream.beginsSend a = true → l.stream.HasRoom
  | .tick _ | .wait => True

instance (tr : List LoopEnd) (l : DrainLoop) : ∀ a, Decidable (RoomToSend tr l a)
  | .stream a => inferInstanceAs (Decidable (l.stream.beginsSend a = true → l.stream.HasRoom))
  | .tick _ | .wait => .isTrue trivial

section Progress

variable {env : StreamEnv} {u : UpstreamResponse} {l l' : DrainLoop}

/-- An action of the task that the clock allows is progress. -/
theorem DrainLoop.progress_of_step {a : StreamAct} {s' : Stream} (ms : ℕ)
    (htask : a.ofClient = false) (hallows : ({ l with now := l.now + ms }).allows a = true)
    (hs : streamStep env l.stream a = some (s', [])) : l.Progress env := by
  refine ⟨ms, .stream a, { l with now := l.now + ms, stream := s', waitingSince := none },
    l.stream.loopEnd a, by simp [LoopAct.ofTask, htask], ?_⟩
  simp only [loopStep, hallows, if_true]
  rw [hs]
  simp [htask]

/-- A send to a client that is there waits for room. -/
theorem Stream.hasRoom_of_moves {s s' : Stream} {a : StreamAct} {item : Item}
    (h : s.Moves env a s') (htask : a.ofClient = false) (hp : s.pc = .sending item) :
    s.HasRoom := by
  intro hopen
  cases h with
  | send _ _ hroom => exact hroom
  | sendFails _ hclosed => exact absurd (hopen.symm.trans hclosed) (by simp)
  | take _ _ | leave _ => exact absurd htask (by simp [StreamAct.ofClient])
  | read hreading _ _ | drain hreading _ _ | eof hreading _ | deadline hreading | idle hreading
  | broken hreading | recorded hreading => exact absurd (hp.symm.trans hreading) (by simp)

/-- With room, or without a client, a send is done. -/
theorem Stream.HasRoom.send {s : Stream} {item : Item} (h : s.HasRoom)
    (hp : s.pc = .sending item) : ∃ s', streamStep env s .next = some (s', []) := by
  cases hopen : s.open_ with
  | true => exact ⟨_, (streamStep_send hopen hp).trans (if_pos (h hopen))⟩
  | false =>
    refine ⟨{ s with clientGone := true }.afterSend env item, ?_⟩
    simp [streamStep, hp, hopen]

/-- **The task waits for its client** at a full channel, and nowhere else. -/
theorem DrainLoop.progress_iff (hp : l.stream.pc ≠ .ended) :
    l.Progress env ↔ ((∃ item, l.stream.pc = .sending item) → l.stream.HasRoom) := by
  constructor
  · rintro ⟨ms, a, l', ev, htask, hs⟩ ⟨item, hsending⟩
    cases a with
    | tick ms => simp [LoopAct.ofTask] at htask
    | wait => simp [loopStep, hsending] at hs
    | stream a =>
      have hmoves := Stream.moves_of_step (loopStep_stream hs).2.1
      exact Stream.hasRoom_of_moves hmoves (by simpa [LoopAct.ofTask] using htask) hsending
  · intro hroom
    cases hpc : l.stream.pc with
    | ended => exact absurd hpc hp
    | sending item =>
      obtain ⟨s', hs⟩ : ∃ s', streamStep env l.stream .next = some (s', []) :=
        (hroom ⟨item, hpc⟩).send hpc
      exact progress_of_step 0 rfl (by simp [allows, hpc]) hs
    | recording =>
      -- The timer of the recording ends it, if nothing else does.
      exact progress_of_step 0 rfl (by simp [allows, hpc])
        (streamStep_recorded (some .timedOut) hpc)
    | reading =>
      cases hwait : l.waitingSince with
      | some since =>
        -- The idle timer ends the wait, if the worker does not.
        have hidle : streamStep env l.stream .idle = some (l.stream.abort env, []) := by
          simp [streamStep, hpc]
        obtain ⟨ms, hms⟩ : ∃ ms, since + idleTimeout ≤ l.now + ms := ⟨_, Nat.le_add_left _ _⟩
        exact progress_of_step ms rfl (by simp [allows, hwait, hms]) hidle
      | none =>
        by_cases hlate : l.deadline < l.now
        · have hleave : streamStep env l.stream .deadline = some (l.stream.leaveLoop env, []) := by
            simp [streamStep, hpc]
          exact progress_of_step 0 rfl (by simp [allows, hwait, hlate]) hleave
        · refine ⟨0, .wait, { l with waitingSince := some l.now }, [], rfl, ?_⟩
          simp [loopStep, hpc, hwait, Nat.le_of_not_lt hlate]

/-- A step that ends in a send has begun it, or has waited in it. -/
theorem Stream.hasRoom_step {s s' : Stream} {a : StreamAct} (h : s.Moves env a s')
    (hroom : s.beginsSend a = true → s.HasRoom)
    (hsending : (∃ item, s.pc = .sending item) → s.HasRoom) :
    (∃ item, s'.pc = .sending item) → s'.HasRoom := by
  rintro ⟨item, hp'⟩
  cases h with
  | read hp hr hgone =>
    have hbefore := hroom (by simp [beginsSend, hp, hr, hgone])
    simpa [HasRoom] using hbefore
  | drain _ _ _ => simp at hp'
  | eof _ _ | deadline _ =>
    exact absurd hp' (by unfold leaveLoop; split <;> simp)
  | idle hp | broken hp =>
    unfold abort at hp' ⊢
    split at hp'
    · exact absurd hp' (by unfold leaveLoop; split <;> simp)
    · next hgone =>
      rw [if_neg hgone]
      exact hroom (by simp [beginsSend, hp, hgone])
  | @send sent _ _ _ | @sendFails sent _ _ =>
    cases sent with
    | data chunk => simp [afterSend] at hp'
    | error => exact absurd hp' (by simp only [afterSend, leaveLoop]; split <;> simp)
  | recorded _ => simp at hp'
  | @take _ queue hq hopen =>
    intro _
    have hbefore := hsending ⟨item, hp'⟩ hopen
    rw [hq] at hbefore
    exact Nat.lt_of_succ_lt hbefore
  | leave _ => exact fun hopen => absurd hopen (by simp)

end Progress

/-- When sends begin with room they keep it: only the client takes from the channel. -/
theorem hasRoom_of_run {env : StreamEnv} {u : UpstreamResponse} {tr : List LoopEnd}
    {l : DrainLoop} (h : (drainLoop env u).Run RoomToSend tr l) :
    (∃ item, l.stream.pc = .sending item) → l.stream.HasRoom := by
  refine h.invariant (I := fun _ l => (∃ item, l.stream.pc = .sending item) → l.stream.HasRoom)
    ?_ ?_
  · rintro l ⟨⟨-, -, -, -, -, hp⟩, -, -, -⟩ ⟨item, hsending⟩
    exact absurd (hp.symm.trans hsending) (by simp)
  · intro tr l a l' ev _ hok hs hsending
    rcases loopStep_cases hs with ⟨hsame, -⟩ | ⟨b, rfl, hstep, -⟩
    · rw [hsame]
      exact hsending
    · exact Stream.hasRoom_step (Stream.moves_of_step hstep) hok hsending

/-- **The task does not depend on its client**, unless the channel is full: in every run in which
the channel has room, or the client has left, whenever a send begins, the task can go on until the
turn has been recorded. -/
theorem progress_of_room {env : StreamEnv} {u : UpstreamResponse} {tr : List LoopEnd}
    {l : DrainLoop} (h : (drainLoop env u).Run RoomToSend tr l) (hp : l.stream.pc ≠ .ended) :
    l.Progress env :=
  (DrainLoop.progress_iff hp).mpr (hasRoom_of_run h)

/-- A client that has read nothing of two chunks holds nobody up. -/
theorem progress_of_room_unread :
    ∃ tr l, (drainLoop ⟨fun _ => none, "s"⟩ sampleStream).Run RoomToSend tr l ∧
      l.stream.queue.length = 2 ∧ l.Progress ⟨fun _ => none, "s"⟩ := by
  obtain ⟨tr, l, h, hp⟩ := Run.reaches (drainLoop ⟨fun _ => none, "s"⟩ sampleStream) RoomToSend
    [.wait, .stream .next, .stream .next, .wait, .stream .next, .stream .next]
    (fun _ l => decide (l.stream.pc ≠ .ended ∧ l.stream.queue.length = 2))
    (sampleLoop_init _ _) (by decide) (by decide)
  obtain ⟨hpc, hlength⟩ := of_decide_eq_true hp
  exact ⟨tr, l, h, hlength, progress_of_room h hpc⟩

/-! ## A client that never reads -/

/-- After `n` chunks, none of which the client has read, they are all in the channel. -/
structure Unread (u : UpstreamResponse) (n : ℕ) (l : DrainLoop) : Prop where
  reading : l.stream.pc = .reading
  open_ : l.stream.open_ = true
  there : l.stream.clientGone = false
  rest : l.stream.rest = u.chunks.drop n
  queue : l.stream.queue.length = n
  waiting : l.waitingSince = none
  inTime : l.now ≤ l.deadline
  total : l.now < l.total

section Unread

variable {env : StreamEnv} {u : UpstreamResponse} {n : ℕ} {l : DrainLoop}

/-- The task waits for the next chunk, reads it and is about to send it. -/
theorem Unread.reads (h : Unread u n l) (hn : n < u.chunks.length) {tr : List LoopEnd}
    (hrun : (drainLoop env u).Run Anything tr l) :
    ∃ l' chunk, (drainLoop env u).Run Anything tr l' ∧ l'.stream.pc = .sending (.data chunk) ∧
      l'.stream.open_ = true ∧ l'.stream.clientGone = false ∧
      l'.stream.rest = u.chunks.drop (n + 1) ∧ l'.stream.queue.length = n ∧
      l'.waitingSince = none ∧ l'.now ≤ l'.deadline ∧ l'.now < l'.total := by
  have hrest : l.stream.rest = u.chunks[n] :: u.chunks.drop (n + 1) := by
    rw [h.rest, List.drop_eq_getElem_cons hn]
  have hwait : (drainLoop env u).step l .wait =
      some ({ l with waitingSince := some l.now }, []) :=
    if_pos ⟨h.reading, h.waiting, h.inTime⟩
  have hread : streamStep env l.stream .next =
      some ({ { l.stream with rest := u.chunks.drop (n + 1) }.collect env u.chunks[n] with
        pc := .sending (.data u.chunks[n]) }, []) := streamStep_chunk h.there h.reading hrest
  have hnext : (drainLoop env u).step { l with waitingSince := some l.now } (.stream .next) =
      some ({ l with
        stream := { { l.stream with rest := u.chunks.drop (n + 1) }.collect env u.chunks[n] with
          pc := .sending (.data u.chunks[n]) }
        waitingSince := none }, []) := by
    simp [drainLoop, loopStep, DrainLoop.allows, hread, StreamAct.ofClient, Stream.loopEnd,
      h.reading, h.total, hrest, hn]
  have hreads := (hrun.next (a := .wait) trivial hwait).next (a := .stream .next) trivial hnext
  refine ⟨_, u.chunks[n], hreads, rfl, ?_, ?_, ?_, ?_, rfl, h.inTime, h.total⟩
  · simpa using h.open_
  · simpa using h.there
  · simp
  · simpa using h.queue

/-- A client that never reads lets the channel fill up. -/
theorem exists_unread (env : StreamEnv) (u : UpstreamResponse) (n : ℕ)
    (hn : n ≤ u.chunks.length) (hcap : n ≤ channelCapacity) :
    ∃ tr l, (drainLoop env u).Run Anything tr l ∧ Unread u n l := by
  induction n with
  | zero =>
    exact ⟨[], _, .start (sampleLoop_init env u), rfl, rfl, rfl, rfl, rfl, rfl, Nat.zero_le _,
      Nat.succ_pos _⟩
  | succ n ih =>
    obtain ⟨tr, l, hrun, h⟩ := ih (by omega) (by omega)
    obtain ⟨l', chunk, hrun', hpc, hopen, hthere, hrest, hqueue, hwait, htime, htotal⟩ :=
      h.reads hn hrun
    have hroom : l'.stream.queue.length < channelCapacity := by omega
    have hsend : streamStep env l'.stream .next =
        some (({ l'.stream with queue := l'.stream.queue ++ [.data chunk] } : Stream).afterSend env
          (.data chunk), []) := (streamStep_send hopen hpc).trans (if_pos hroom)
    have hnext : (drainLoop env u).step l' (.stream .next) =
        some ({ l' with
          stream := { l'.stream with
            queue := l'.stream.queue ++ [.data chunk]
            pc := .reading }
          waitingSince := none }, []) := by
      simp [drainLoop, loopStep, DrainLoop.allows, hsend, hpc, StreamAct.ofClient,
        Stream.loopEnd, Stream.afterSend]
    have hsent := hrun'.next (a := .stream .next) trivial hnext
    refine ⟨tr, _, hsent, rfl, hopen, hthere, hrest, ?_, rfl, htime, htotal⟩
    simp [hqueue]

/-- **A client that stays and never reads** stops the task for ever, whenever the answer has more
chunks than the channel holds. -/
theorem exists_stuck_of_unread (env : StreamEnv) (u : UpstreamResponse)
    (h : channelCapacity < u.chunks.length) :
    ∃ tr l, (drainLoop env u).Run Anything tr l ∧ l.stream.pc ≠ .ended ∧ ¬ l.Progress env := by
  obtain ⟨tr, l, hrun, hunread⟩ := exists_unread env u channelCapacity h.le le_rfl
  obtain ⟨l', chunk, hrun', hpc, hopen, -, -, hqueue, -⟩ := hunread.reads h hrun
  have hne : l'.stream.pc ≠ .ended := by simp [hpc]
  refine ⟨tr, l', hrun', hne, fun hprogress => ?_⟩
  have hroom := (DrainLoop.progress_iff hne).mp hprogress ⟨_, hpc⟩ hopen
  omega

end Unread

/-- An answer of one chunk more than the channel holds. -/
def longStream : UpstreamResponse where
  status := 200
  headers := .empty
  chunks := List.replicate (channelCapacity + 1) (asciiBytes "data: 1\n")

/-- The client stays and never reads, and the task waits for it for ever. -/
theorem unread_stream_waits :
    ¬ ∀ tr l, (drainLoop ⟨fun _ => none, "s"⟩ longStream).Run Anything tr l →
      l.stream.pc ≠ .ended → l.Progress ⟨fun _ => none, "s"⟩ := by
  intro hall
  obtain ⟨tr, l, hrun, hne, hstuck⟩ :=
    exists_stuck_of_unread ⟨fun _ => none, "s"⟩ longStream (by simp [longStream])
  exact hstuck (hall tr l hrun hne)

end LlmCtl
