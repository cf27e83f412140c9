/-
# The relay and the record agree (`proxy.rs`)

`stream_and_record` hands each chunk to two readers: the collector, from which the turn is
recorded, and the channel, from which the client reads.  The client may leave at any time, the
worker may stall or break, and the deadline may pass.

Whatever they do, both readers have seen the same chunks: the collector all that have been read,
the client a prefix of them, and an error after them at most.  The prefix is all of them as long
as the task has not noticed that the client is gone.  And the task holds little of an answer:
sixty-four items, and less than a line of 64 KiB.
-/
import LlmCtl.DrainLoop

namespace LlmCtl

open EventSystem

/-! ## The task from its start -/

/-- The task starts with an empty collector, an empty buffer and an empty channel. -/
def Stream.start (u : UpstreamResponse) : Stream where
  rest := u.chunks
  collected := ({}, [])
  clientGone := false
  queue := []
  open_ := true
  received := []
  pc := .reading

/-- The task of a response from its start. -/
def relay (env : StreamEnv) (u : UpstreamResponse) : EventSystem Stream StreamAct Empty where
  init := fun s => s = .start u
  step := streamStep env

/-- The collector and its buffer after some chunks. -/
def StreamEnv.collects (env : StreamEnv) (done : List (List UInt8)) : Collector × List UInt8 :=
  if env.sessionId = "" then ({}, [])
  else LineBuffer.readChunks isNewline (feedBytes env.parse) maxSseBuf ({}, []) done

theorem StreamEnv.collects_fst (env : StreamEnv) (done : List (List UInt8)) :
    (env.collects done).1 = readStream env.parse env.sessionId done := by
  unfold collects readStream
  split <;> rfl

/-- What is left in the buffer after a chunk is short, and has no newline. -/
theorem StreamEnv.collects_buffer (env : StreamEnv) (done : List (List UInt8)) :
    (env.collects done).2.length ≤ maxSseBuf ∧
      ∀ b ∈ (env.collects done).2, isNewline b = false := by
  unfold collects
  split
  · simp
  · rcases List.eq_nil_or_concat done with rfl | ⟨before, chunk, rfl⟩
    · simp [LineBuffer.readChunks]
    · simp only [LineBuffer.readChunks, List.concat_eq_append, List.foldl_append, List.foldl_cons,
        List.foldl_nil, LineBuffer.readChunk, LineBuffer.drain_eq]
      split
      · simp
      · next hshort => exact ⟨Nat.le_of_not_lt hshort, LineBuffer.rest_not_end isNewline _⟩

/-! ## The collector -/

/-- The chunks that have been read are those that the collector has been fed. -/
structure Stream.Fed (env : StreamEnv) (u : UpstreamResponse) (done : List (List UInt8))
    (s : Stream) : Prop where
  chunks : done ++ s.rest = u.chunks
  collected : s.collected = env.collects done

section Step

variable {env : StreamEnv} {u : UpstreamResponse} {done : List (List UInt8)} {s s' : Stream}

/-- The chunks that an action reads. -/
def Stream.reads (s : Stream) : StreamAct → List (List UInt8)
  | .next => if s.pc = .reading then s.rest.take 1 else []
  | .deadline | .idle | .broken | .recorded _ | .take | .leave => []

theorem Stream.Fed.read (h : s.Fed env u done) {chunk : List UInt8} {rest : List (List UInt8)}
    (hr : s.rest = chunk :: rest) :
    ({ s with rest := rest }.collect env chunk).Fed env u (done ++ [chunk]) where
  chunks := by
    have hchunks := h.chunks
    rw [hr] at hchunks
    simpa using hchunks
  collected := by
    have hbefore := h.collected
    unfold StreamEnv.collects at hbefore
    unfold Stream.collect StreamEnv.collects
    by_cases hsession : env.sessionId = ""
    · rw [if_pos hsession] at hbefore
      rw [if_pos hsession, if_pos hsession]
      exact hbefore
    · rw [if_neg hsession] at hbefore
      rw [if_neg hsession, if_neg hsession, LineBuffer.readChunks, List.foldl_append]
      exact congrArg (LineBuffer.readChunk isNewline (feedBytes env.parse) maxSseBuf · chunk)
        hbefore

/-- The record looks at the chunks and the collector only. -/
theorem Stream.Fed.congr (h : s.Fed env u done) (hrest : s'.rest = s.rest)
    (hcollected : s'.collected = s.collected) : s'.Fed env u done :=
  ⟨hrest ▸ h.chunks, hcollected.trans h.collected⟩

/-- **A step feeds the collector what it reads.** -/
theorem Stream.Fed.step {a : StreamAct} (h : s.Fed env u done) (hs : s.Moves env a s') :
    s'.Fed env u (done ++ s.reads a) := by
  cases hs with
  | @read chunk rest hp hr _ | @drain chunk rest hp hr _ =>
    have hreads : s.reads .next = [chunk] := by simp [reads, hp, hr]
    rw [hreads]
    exact (h.read hr).congr rfl rfl
  | eof hp hr =>
    have hreads : s.reads .next = [] := by simp [reads, hr]
    rw [hreads, List.append_nil]
    exact h.congr rfl rfl
  | @send item hp _ _ | @sendFails item hp _ =>
    have hreads : s.reads .next = [] := by simp [reads, hp]
    rw [hreads, List.append_nil]
    cases item <;> exact h.congr rfl rfl
  | idle _ | broken _ =>
    rw [reads, List.append_nil]
    unfold abort
    split <;> exact h.congr rfl rfl
  | deadline _ | recorded _ | take _ _ | leave _ =>
    rw [reads, List.append_nil]
    exact h.congr rfl rfl

/-! ## The client -/

/-- **What the client has been told** of the chunks that have been read: all of them, with an
error after them or none, as long as the task has not noticed that the client is gone; else the
first ones. -/
inductive Stream.Told (done : List (List UInt8)) (s : Stream) : Prop
  | all : s.clientGone = false → s.sent = done.map Item.data → s.pc ≠ .sending .error → Told done s
  | failed : s.clientGone = false → s.sent = done.map Item.data ++ [.error] →
      s.pc = .sending .error ∨ s.pc.pastLoop → Told done s
  | gone : s.clientGone = true → s.open_ = false → s.sent <+: done.map Item.data →
      s.pc = .reading ∨ s.pc.pastLoop → Told done s

theorem Stream.leaveLoop_ne_sending (item : Item) : (s.leaveLoop env).pc ≠ .sending item := by
  unfold leaveLoop
  split <;> simp

/-- Leaving the loop changes nothing of what the client has been told. -/
theorem Stream.Told.leaveLoop (h : s.Told done) (hp : s.pc = .reading) :
    (s.leaveLoop env).Told done := by
  have hsent : (s.leaveLoop env).sent = s.sent := by
    rw [sent, leaveLoop_item, sent, hp]
    rfl
  cases h with
  | all hgone hall _ => exact .all hgone (hsent.trans hall) (leaveLoop_ne_sending _)
  | failed hgone hall _ => exact .failed hgone (hsent.trans hall) (.inr leaveLoop_pastLoop)
  | gone hgone hopen hall _ => exact .gone hgone hopen (hsent ▸ hall) (.inr leaveLoop_pastLoop)

/-- In the read loop no error has been sent. -/
theorem Stream.Told.of_reading (h : s.Told done) (hp : s.pc = .reading)
    (hgone : s.clientGone = false) : s.sent = done.map Item.data := by
  cases h with
  | all _ hall _ => exact hall
  | failed _ _ hpc => simp [StreamPc.pastLoop, hp] at hpc
  | gone hyes _ _ _ => exact absurd (hgone.symm.trans hyes) (by simp)

/-- A client that the task knows to be gone is told nothing more. -/
theorem Stream.Told.of_gone (h : s.Told done) (hgone : s.clientGone = true) :
    s.open_ = false ∧ s.sent <+: done.map Item.data ∧ (s.pc = .reading ∨ s.pc.pastLoop) := by
  cases h with
  | all hno _ _ | failed hno _ _ => exact absurd (hgone.symm.trans hno) (by simp)
  | gone _ hopen hall hpc => exact ⟨hopen, hall, hpc⟩

/-- The client that is still there is told of an error, last. -/
theorem Stream.Told.abort (h : s.Told done) (hp : s.pc = .reading) : (s.abort env).Told done := by
  unfold Stream.abort
  split
  · exact h.leaveLoop hp
  · next hgone =>
    have hno := Bool.eq_false_iff.mpr hgone
    have hall := h.of_reading hp hno
    refine .failed hno ?_ (.inl rfl)
    rw [← hall]
    simp [sent, StreamPc.item, hp]

/-- A send moves its item from the task to the channel. -/
theorem Stream.sent_send (env : StreamEnv) (item : Item) (hp : s.pc = .sending item) :
    (({ s with queue := s.queue ++ [item] } : Stream).afterSend env item).sent = s.sent := by
  cases item with
  | data chunk => simp [afterSend, sent, StreamPc.item, hp]
  | error =>
    have hnone : (({ s with queue := s.queue ++ [.error] } : Stream).leaveLoop env).pc.item = [] :=
      leaveLoop_item
    simp only [afterSend, sent, hnone]
    simp [leaveLoop, StreamPc.item, hp]

/-- A send that fails loses its item. -/
theorem Stream.sent_sendFails (env : StreamEnv) (item : Item) (hp : s.pc = .sending item) :
    (({ s with clientGone := true } : Stream).afterSend env item).sent ++ [item] = s.sent := by
  cases item with
  | data chunk => simp [afterSend, sent, StreamPc.item, hp]
  | error =>
    have hnone : (({ s with clientGone := true } : Stream).leaveLoop env).pc.item = [] :=
      leaveLoop_item
    simp only [afterSend, sent, hnone]
    simp [leaveLoop, StreamPc.item, hp]

/-- After a send the task is back in its loop, or past it. -/
theorem Stream.afterSend_pc (env : StreamEnv) (s : Stream) (item : Item) :
    ((s.afterSend env item).pc = .reading ∧ item ≠ .error) ∨
      ((s.afterSend env item).pc.pastLoop ∧ item = .error) := by
  cases item with
  | data chunk => exact .inl ⟨rfl, by simp⟩
  | error => exact .inr ⟨leaveLoop_pastLoop, rfl⟩

theorem Stream.afterSend_clientGone (item : Item) :
    (s.afterSend env item).clientGone = s.clientGone := by
  cases item <;> rfl

theorem Stream.afterSend_open (item : Item) : (s.afterSend env item).open_ = s.open_ := by
  cases item <;> rfl

/-- **A step tells the client what it reads.** -/
theorem Stream.Told.step {a : StreamAct} (h : s.Told done) (hs : s.Moves env a s') :
    s'.Told (done ++ s.reads a) := by
  cases hs with
  | @read chunk rest hp hr hgone =>
    have hreads : s.reads .next = [chunk] := by simp [reads, hp, hr]
    have hall := h.of_reading hp hgone
    rw [hreads]
    refine .all (by simpa using hgone) ?_ (by simp)
    simp only [sent, hp, StreamPc.item, List.append_nil] at hall
    simp [sent, StreamPc.item, hall]
  | @drain chunk rest hp hr hgone =>
    have hreads : s.reads .next = [chunk] := by simp [reads, hp, hr]
    obtain ⟨hopen, hall, -⟩ := h.of_gone hgone
    rw [hreads]
    refine .gone (by simpa using hgone) (by simpa using hopen) ?_ (.inl rfl)
    have hmore : done.map Item.data <+: (done ++ [chunk]).map Item.data := by simp
    refine List.IsPrefix.trans ?_ (hall.trans hmore)
    simp [sent, StreamPc.item, hp]
  | eof hp hr =>
    have hreads : s.reads .next = [] := by simp [reads, hr]
    rw [hreads, List.append_nil]
    exact h.leaveLoop hp
  | @send item hp hopen _ =>
    have hreads : s.reads .next = [] := by simp [reads, hp]
    have hsent := sent_send env item hp
    have hpc := afterSend_pc env { s with queue := s.queue ++ [item] } item
    rw [hreads, List.append_nil]
    cases h with
    | all hgone hall hne =>
      have hitem : item ≠ .error := fun heq => hne (heq ▸ hp)
      refine .all ((afterSend_clientGone item).trans hgone) (hsent.trans hall) ?_
      rcases hpc with ⟨hreading, -⟩ | ⟨-, herr⟩
      · simp [hreading]
      · exact absurd herr hitem
    | failed hgone hall hwhere =>
      refine .failed ((afterSend_clientGone item).trans hgone) (hsent.trans hall) (.inr ?_)
      rcases hwhere with herr | hpast
      · obtain rfl : item = .error := by simpa [hp] using herr
        exact leaveLoop_pastLoop
      · simp [StreamPc.pastLoop, hp] at hpast
    | gone _ hclosed _ _ => exact absurd (hopen.symm.trans hclosed) (by simp)
  | @sendFails item hp hclosed =>
    have hreads : s.reads .next = [] := by simp [reads, hp]
    have hsent := sent_sendFails env item hp
    have hpc := afterSend_pc env { s with clientGone := true } item
    rw [hreads, List.append_nil]
    refine .gone (afterSend_clientGone item) ((afterSend_open item).trans hclosed) ?_
      (hpc.imp And.left And.left)
    cases h with
    | all _ hall _ => exact ⟨[item], hsent.trans hall⟩
    | failed _ hall _ =>
      -- The error is what is lost; the chunks before it have all been sent.
      exact (List.append_inj' (hsent.trans hall) rfl).1 ▸ List.prefix_rfl
    | gone _ _ _ hwhere => simp [StreamPc.pastLoop, hp] at hwhere
  | deadline hp =>
    rw [reads, List.append_nil]
    exact h.leaveLoop hp
  | idle hp | broken hp =>
    rw [reads, List.append_nil]
    exact h.abort hp
  | recorded hp =>
    have hsent : sent { s with pc := .ended } = s.sent := by simp [sent, StreamPc.item, hp]
    rw [reads, List.append_nil]
    cases h with
    | all hgone hall _ => exact .all hgone (hsent.trans hall) (by simp)
    | failed hgone hall _ => exact .failed hgone (hsent.trans hall) (.inr (.inr rfl))
    | gone hgone hopen hall _ => exact .gone hgone hopen (hsent ▸ hall) (.inr (.inr rfl))
  | @take item queue hq hopen =>
    have hsent : sent { s with queue := queue, received := s.received ++ [item] } = s.sent := by
      simp [sent, hq]
    rw [reads, List.append_nil]
    cases h with
    | all hgone hall hne => exact .all hgone (hsent.trans hall) hne
    | failed hgone hall hpc => exact .failed hgone (hsent.trans hall) hpc
    | gone _ hclosed _ _ => exact absurd (hopen.symm.trans hclosed) (by simp)
  | leave hopen =>
    rw [reads, List.append_nil]
    cases h with
    | all hgone hall hne => exact .all hgone hall hne
    | failed hgone hall hpc => exact .failed hgone hall hpc
    | gone _ hclosed _ _ => exact absurd (hopen.symm.trans hclosed) (by simp)

/-- A step puts an item into the channel when there is room. -/
theorem Stream.Moves.queue_le {a : StreamAct} (hs : s.Moves env a s')
    (h : s.queue.length ≤ channelCapacity) : s'.queue.length ≤ channelCapacity := by
  cases hs with
  | read _ _ _ | drain _ _ _ => simpa using h
  | @send item _ _ hroom =>
    have hlen : (s.queue ++ [item]).length ≤ channelCapacity := by
      rw [List.length_append]
      exact hroom
    cases item <;> exact hlen
  | @sendFails item _ _ => cases item <;> exact h
  | idle _ | broken _ =>
    unfold abort
    split <;> exact h
  | take hq _ =>
    rw [hq] at h
    exact Nat.le_of_succ_le h
  | eof _ _ | deadline _ | recorded _ | leave _ => exact h

end Step

/-! ## Every run -/

section Runs

variable {env : StreamEnv} {u : UpstreamResponse}
  {ok : List Empty → Stream → StreamAct → Prop} {tr : List Empty} {s : Stream}

/-- **In every run the two readers have seen the same chunks.** -/
theorem fed_and_told_of_run (h : (relay env u).Run ok tr s) :
    ∃ done, s.Fed env u done ∧ s.Told done := by
  refine h.invariant (I := fun _ s => ∃ done, s.Fed env u done ∧ s.Told done) ?_ ?_
  · rintro s rfl
    refine ⟨[], ⟨rfl, ?_⟩, .all rfl rfl (by simp [Stream.start])⟩
    unfold StreamEnv.collects
    split <;> rfl
  · rintro tr s a s' ev - - hs ⟨done, hfed, htold⟩
    have hmoves := Stream.moves_of_step hs
    exact ⟨done ++ s.reads a, hfed.step hmoves, htold.step hmoves⟩

theorem queue_le_of_run (h : (relay env u).Run ok tr s) : s.queue.length ≤ channelCapacity := by
  refine h.invariant (I := fun _ s => s.queue.length ≤ channelCapacity) ?_ ?_
  · rintro s rfl
    exact Nat.zero_le _
  · exact fun tr s a s' ev _ _ hs hle => (Stream.moves_of_step hs).queue_le hle

end Runs

/-- **The two readers of the chunks `done`** that have been read of an answer. -/
structure Stream.Agrees (env : StreamEnv) (u : UpstreamResponse) (s : Stream)
    (done : List (List UInt8)) : Prop where
  chunks : done ++ s.rest = u.chunks
  /-- The turn is built from all of them. -/
  collector : s.collected.1 = readStream env.parse env.sessionId done
  /-- The client's body is a prefix of their bytes. -/
  body : (s.response u).body <+: done.flatten
  /-- All of them are with the client or on their way, unless the task knows it to be gone. -/
  sent : s.clientGone = false → done.map Item.data <+: s.sent
  /-- An error is the last thing that the client is told. -/
  error : ∀ before after, s.sent = before ++ .error :: after →
    before = done.map Item.data ∧ after = []
  /-- What is held of the answer is bounded. -/
  queue : s.queue.length ≤ channelCapacity
  buffer : s.collected.2.length ≤ maxSseBuf ∧ ∀ b ∈ s.collected.2, isNewline b = false

/-- No error is among chunks. -/
theorem ne_data_of_error {done : List (List UInt8)} {before after : List Item} :
    done.map Item.data ≠ before ++ .error :: after := by
  intro heq
  have hmem : Item.error ∈ done.map Item.data := heq ▸ by simp
  obtain ⟨chunk, -, hdata⟩ := List.mem_map.mp hmem
  exact absurd hdata (by simp)

section Told

variable {done : List (List UInt8)} {s : Stream}

/-- The client has got chunks, in order, and perhaps an error. -/
theorem Stream.Told.sent_prefix (h : s.Told done) : s.sent <+: done.map Item.data ++ [.error] := by
  cases h with
  | all _ hall _ => exact hall ▸ List.prefix_append _ _
  | failed _ hall _ => exact hall ▸ List.prefix_rfl
  | gone _ _ hall _ => exact hall.trans (List.prefix_append _ _)

theorem Stream.Told.sent_all (h : s.Told done) (hgone : s.clientGone = false) :
    done.map Item.data <+: s.sent := by
  cases h with
  | all _ hall _ => exact hall ▸ List.prefix_rfl
  | failed _ hall _ => exact hall ▸ List.prefix_append _ _
  | gone hyes _ _ _ => exact absurd (hgone.symm.trans hyes) (by simp)

/-- An error comes last. -/
theorem Stream.Told.error_last (h : s.Told done) {before after : List Item}
    (hsent : s.sent = before ++ .error :: after) :
    before = done.map Item.data ∧ after = [] := by
  cases h with
  | all _ hall _ => exact absurd (hall.symm.trans hsent) ne_data_of_error
  | gone _ _ hall _ =>
    obtain ⟨rest, hrest⟩ := hall
    rw [hsent, List.append_assoc, List.cons_append] at hrest
    exact absurd hrest.symm ne_data_of_error
  | failed _ hall _ =>
    have heq := hall.symm.trans hsent
    rcases List.eq_nil_or_concat after with rfl | ⟨front, last, rfl⟩
    · exact ⟨(List.append_inj' heq rfl).1.symm, rfl⟩
    · have hlast : done.map Item.data ++ [.error] = before ++ .error :: front ++ [last] := by
        simpa using heq
      exact absurd (List.append_inj' hlast rfl).1 ne_data_of_error

/-- The bytes of the client's body are those of the chunks that it has got. -/
theorem Stream.Told.body_prefix (h : s.Told done) (u : UpstreamResponse) :
    (s.response u).body <+: done.flatten := by
  have hreceived : s.received <+: done.map Item.data ++ [.error] := by
    refine List.IsPrefix.trans ?_ h.sent_prefix
    rw [Stream.sent, List.append_assoc]
    exact List.prefix_append _ _
  obtain ⟨rest, hrest⟩ := hreceived
  have hbytes := congrArg (fun items => (({ s with received := items } : Stream).response u).body)
    hrest
  refine ⟨(({ s with received := rest } : Stream).response u).body, ?_⟩
  simp only [Stream.response, List.flatMap_append] at hbytes ⊢
  rw [hbytes, List.flatMap_map]
  simp [List.flatMap_def]

end Told

/-- **The client and the record see the same answer**, in every run: whatever the worker, the
timers and the client do, the collector has been fed exactly the chunks that have been read, and
the client gets a prefix of them. -/
theorem relay_and_record_agree {env : StreamEnv} {u : UpstreamResponse}
    {ok : List Empty → Stream → StreamAct → Prop} {tr : List Empty} {s : Stream}
    (h : (relay env u).Run ok tr s) : ∃ done, s.Agrees env u done := by
  obtain ⟨done, hfed, htold⟩ := fed_and_told_of_run h
  refine ⟨done, hfed.chunks, ?_, htold.body_prefix u, htold.sent_all, ?_, queue_le_of_run h, ?_⟩
  · rw [hfed.collected, env.collects_fst]
  · exact fun _ _ => htold.error_last
  · rw [hfed.collected]
    exact env.collects_buffer done

/-- The client leaves with the first chunk, and the record has both. -/
theorem relay_and_record_agree_left :
    ∃ tr s, (relay ⟨fun _ => none, "s"⟩ sampleStream).Run Anything tr s ∧
      (s.rest = [] ∧ s.pc = .ended ∧ s.received.length = 1) ∧
      ∃ done, s.Agrees ⟨fun _ => none, "s"⟩ sampleStream done := by
  obtain ⟨tr, s, h, hp⟩ := Run.reaches (relay ⟨fun _ => none, "s"⟩ sampleStream) Anything
    [.next, .next, .take, .leave, .next, .next, .next, .recorded (some .stored)]
    (fun _ s => decide (s.rest = [] ∧ s.pc = .ended ∧ s.received.length = 1))
    rfl (admits_anything _ _ _) (by decide)
  exact ⟨tr, s, h, of_decide_eq_true hp, relay_and_record_agree h⟩

end LlmCtl
