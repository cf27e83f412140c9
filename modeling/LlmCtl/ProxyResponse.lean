/-
# What the client gets of a response (`proxy.rs`)

A response of the worker comes back on one of three ways: `build_response` relays its body,
the plain branch of `handle_completion` reads it first and records the turn, and
`stream_and_record` relays it through a task, which feeds a collector, puts each chunk into a
bounded channel and records the turn at the end.  Each of them copies the headers in its own
way.

All three give the client the same response: the worker's, without three headers.  For the
stream this is a statement about every run of the task and its client.  The plain branch has
one exception: it records before it answers, and where integer overflow is checked, counts of
the answer that do not fit an `i64` together end the handler in between.
-/
import LlmCtl.Http
import LlmCtl.Runs
import LlmCtl.StreamCollector

namespace LlmCtl

open EventSystem

/-! ## Responses -/

/-- The worker's response, with its body in the chunks in which it arrives. -/
structure UpstreamResponse where
  status : ℕ
  headers : HeaderMap
  chunks : List (List UInt8)

/-- What a client gets. -/
structure Response where
  status : ℕ
  headers : HeaderMap
  body : List UInt8

/-- The headers that are left out. -/
def isConnectionHeader (name : String) : Bool :=
  decide (asciiLower name ∈ ["transfer-encoding", "content-length", "connection"])

/-- **The response is the worker's**, without the headers of its connection. -/
structure Response.Relays (r : Response) (u : UpstreamResponse) : Prop where
  status : r.status = u.status
  headers : r.headers.iter = u.headers.iter.filter fun p => !isConnectionHeader p.1
  body : r.body = u.chunks.flatten

/-! ## The three copies of the header loop -/

/-- `build_response`: the loop goes on where a header is left out. -/
def buildHeaders (headers : HeaderMap) : HeaderMap :=
  headers.iter.foldl (fun h p => if isConnectionHeader p.1 then h else h.append p.1 p.2) .empty

/-- `handle_completion`: the headers are gathered in a list. -/
def outHeaders (headers : HeaderMap) : List (String × List UInt8) :=
  headers.iter.foldl (fun out p => if !isConnectionHeader p.1 then out ++ [p] else out) []

/-- `stream_and_record`: the loop appends the headers that are kept. -/
def streamHeaders (headers : HeaderMap) : HeaderMap :=
  headers.iter.foldl (fun h p => if !isConnectionHeader p.1 then h.append p.1 p.2 else h) .empty

/-- A loop that leaves some elements out is a loop over the others. -/
theorem foldl_ite_eq {α β : Type*} (keep : α → Bool) (f : β → α → β) (b : β) (l : List α) :
    l.foldl (fun b x => if keep x then f b x else b) b = (l.filter keep).foldl f b := by
  induction l generalizing b with
  | nil => rfl
  | cons x l ih =>
    rw [List.foldl_cons, ih, List.filter_cons]
    cases keep x <;> rfl

theorem foldl_append_singleton {α : Type*} (l out : List α) :
    l.foldl (fun out x => out ++ [x]) out = out ++ l := by
  induction l generalizing out with
  | nil => simp
  | cons x l ih => rw [List.foldl_cons, ih, List.append_assoc, List.singleton_append]

theorem outHeaders_eq (headers : HeaderMap) :
    outHeaders headers = headers.iter.filter fun p => !isConnectionHeader p.1 := by
  have hloop := foldl_ite_eq (fun p : String × List UInt8 => !isConnectionHeader p.1)
    (fun out p => out ++ [p]) [] headers.iter
  rw [outHeaders, hloop, foldl_append_singleton, List.nil_append]

theorem streamHeaders_eq (headers : HeaderMap) :
    streamHeaders headers = .ofPairs (outHeaders headers) := by
  have hloop := foldl_ite_eq (fun p : String × List UInt8 => !isConnectionHeader p.1)
    (fun (h : HeaderMap) p => h.append p.1 p.2) .empty headers.iter
  rw [streamHeaders, hloop, outHeaders_eq]
  rfl

theorem buildHeaders_eq (headers : HeaderMap) : buildHeaders headers = streamHeaders headers := by
  rw [buildHeaders, streamHeaders]
  congr 1
  funext h p
  cases isConnectionHeader p.1 <;> rfl

/-- **The headers are copied in order**, repeated ones included. -/
theorem iter_streamHeaders (headers : HeaderMap) :
    (streamHeaders headers).iter = headers.iter.filter fun p => !isConnectionHeader p.1 := by
  rw [streamHeaders_eq, outHeaders_eq]
  exact headers.iter_ofPairs_filter fun name => !isConnectionHeader name

/-! ## The ways without a task -/

/-- `build_response`. -/
def buildResponse (u : UpstreamResponse) : Response where
  status := u.status
  headers := buildHeaders u.headers
  body := u.chunks.flatten

/-- How the recording of a turn ends. -/
inductive RecordEnd where
  | stored
  | noStore
  | failed
  | timedOut
  deriving DecidableEq, Repr

/-- `record_from_response`: how the recording of an answer ends, if there is one.  Nothing when
the sum in `build_turn` panics. -/
def recordFromResponse (overflowChecks : Bool) (parse : List UInt8 → Option Json) (asked : Asked)
    (durationMs : ℚ) (outcome : RecordEnd) (bytes : List UInt8) : Option (Option RecordEnd) :=
  if asked.sessionId = "" then some none
  else
    match parse bytes with
    | none => some none
    | some v =>
      (TurnRow.buildTurn overflowChecks asked (.ofAnswer v) durationMs).map fun _ => some outcome

/-- The plain branch of `handle_completion`: the response, and how the recording ended, if there
was one.  The end of the recording is not looked at, but a panic in it ends the handler before
the response is built. -/
def plainResponse (overflowChecks : Bool) (parse : List UInt8 → Option Json) (asked : Asked)
    (durationMs : ℚ) (outcome : RecordEnd) (u : UpstreamResponse) :
    Option (Response × Option RecordEnd) :=
  let out := outHeaders u.headers
  let bytes := u.chunks.flatten
  (recordFromResponse overflowChecks parse asked durationMs outcome bytes).map fun recorded =>
    (⟨u.status, .ofPairs out, bytes⟩, recorded)

/-! ## The task of a streamed response -/

/-- What the channel carries; an error ends the client's body. -/
inductive Item where
  | data (chunk : List UInt8)
  | error
  deriving DecidableEq, Repr

/-- Program points of the task. -/
inductive StreamPc where
  | reading
  | sending (item : Item)
  | recording
  | ended
  deriving DecidableEq, Repr

/-- The task and its client: what the worker has still to send, the collector and its buffer, the
task's note that the client is gone, the channel, whether the client reads it, and what the
client has got. -/
structure Stream where
  rest : List (List UInt8)
  collected : Collector × List UInt8
  clientGone : Bool
  queue : List Item
  open_ : Bool
  received : List Item
  pc : StreamPc

inductive StreamAct where
  /-- The task goes on; at the read loop the worker sends its next chunk or the end. -/
  | next
  /-- The overall deadline has passed. -/
  | deadline
  /-- The worker sends nothing for too long. -/
  | idle
  /-- The worker's stream breaks. -/
  | broken
  /-- The recording ends; nothing when the sum in `build_turn` panics, which ends the task. -/
  | recorded (outcome : Option RecordEnd)
  /-- The client reads from the channel. -/
  | take
  /-- The client leaves. -/
  | leave
  deriving DecidableEq, Repr

/-- The capacity of the channel. -/
def channelCapacity : ℕ := 64

/-- What the task works with: the parser of JSON texts and the session. -/
structure StreamEnv where
  parse : String → Option Json
  sessionId : String

/-- The read loop is left: the turn is recorded if there is a session. -/
def Stream.leaveLoop (env : StreamEnv) (s : Stream) : Stream :=
  { s with pc := if env.sessionId = "" then .ended else .recording }

/-- A chunk is fed to the collector if there is a session. -/
def Stream.collect (env : StreamEnv) (s : Stream) (chunk : List UInt8) : Stream :=
  if env.sessionId = "" then s
  else
    { s with collected :=
        LineBuffer.readChunk isNewline (feedBytes env.parse) maxSseBuf s.collected chunk }

/-- The loop is left with an error for a client that is still there. -/
def Stream.abort (env : StreamEnv) (s : Stream) : Stream :=
  if s.clientGone then s.leaveLoop env else { s with pc := .sending .error }

/-- What follows a send. -/
def Stream.afterSend (env : StreamEnv) (s : Stream) : Item → Stream
  | .data _ => { s with pc := .reading }
  | .error => s.leaveLoop env

/-- One step of the task or its client. -/
def streamStep (env : StreamEnv) (s : Stream) : StreamAct → Option (Stream × List Empty)
  | .next =>
    match s.pc with
    | .reading =>
      match s.rest with
      | chunk :: rest =>
        let s := { s with rest := rest }.collect env chunk
        some ({ s with pc := if s.clientGone then .reading else .sending (.data chunk) }, [])
      | [] => some (s.leaveLoop env, [])
    | .sending item =>
      if s.open_ then
        -- A send waits while the channel is full.
        if s.queue.length < channelCapacity then
          some ({ s with queue := s.queue ++ [item] }.afterSend env item, [])
        else none
      else some ({ s with clientGone := true }.afterSend env item, [])
    | .recording | .ended => none
  | .deadline =>
    match s.pc with
    | .reading => some (s.leaveLoop env, [])
    | _ => none
  | .idle | .broken =>
    match s.pc with
    | .reading => some (s.abort env, [])
    | _ => none
  | .recorded _ =>
    match s.pc with
    | .recording => some ({ s with pc := .ended }, [])
    | _ => none
  | .take =>
    match s.queue with
    | item :: queue =>
      if s.open_ then some ({ s with queue := queue, received := s.received ++ [item] }, [])
      else none
    | [] => none
  | .leave => if s.open_ then some ({ s with open_ := false }, []) else none

/-- The task begins with any collector and any buffer. -/
def Stream.begins (u : UpstreamResponse) (s : Stream) : Prop :=
  s.rest = u.chunks ∧ s.clientGone = false ∧ s.queue = [] ∧ s.open_ = true ∧ s.received = [] ∧
    s.pc = .reading

/-- The task of a response and its client as a system. -/
def streaming (env : StreamEnv) (u : UpstreamResponse) : EventSystem Stream StreamAct Empty where
  init := Stream.begins u
  step := streamStep env

/-- The response that the client has got so far. -/
def Stream.response (u : UpstreamResponse) (s : Stream) : Response where
  status := u.status
  headers := streamHeaders u.headers
  body := s.received.flatMap fun
    | .data chunk => chunk
    | .error => []

/-- The client has come to the end: the task has dropped the channel, and nothing is in it. -/
def Stream.Done (s : Stream) : Prop := s.pc = .ended ∧ s.queue = []

/-- The response is read to its end, by a client that keeps reading. -/
def ReadToEnd (_ : List Empty) (_ : Stream) : StreamAct → Prop
  | .deadline | .idle | .broken | .leave => False
  | .next | .recorded _ | .take => True

instance (tr : List Empty) (s : Stream) (a : StreamAct) : Decidable (ReadToEnd tr s a) := by
  unfold ReadToEnd
  split <;> infer_instance

/-! ## The chunks on their way -/

/-- The item that the task is about to send. -/
def StreamPc.item : StreamPc → List Item
  | .sending item => [item]
  | _ => []

/-- **Every chunk is somewhere on its way**, in its place: with the client, in the channel, in
the hands of the task, or still with the worker. -/
structure Stream.OnTheWay (u : UpstreamResponse) (s : Stream) : Prop where
  open_ : s.open_ = true
  there : s.clientGone = false
  items : s.received ++ s.queue ++ s.pc.item ++ s.rest.map Item.data = u.chunks.map Item.data
  drained : s.pc = .recording ∨ s.pc = .ended → s.rest = []

section Step

variable {env : StreamEnv} {u : UpstreamResponse} {s s' : Stream} {ev : List Empty}

@[simp] theorem Stream.collect_queue (chunk : List UInt8) :
    (s.collect env chunk).queue = s.queue := by
  unfold collect
  split <;> rfl

@[simp] theorem Stream.collect_received (chunk : List UInt8) :
    (s.collect env chunk).received = s.received := by
  unfold collect
  split <;> rfl

@[simp] theorem Stream.collect_rest (chunk : List UInt8) :
    (s.collect env chunk).rest = s.rest := by
  unfold collect
  split <;> rfl

@[simp] theorem Stream.collect_open (chunk : List UInt8) :
    (s.collect env chunk).open_ = s.open_ := by
  unfold collect
  split <;> rfl

@[simp] theorem Stream.collect_clientGone (chunk : List UInt8) :
    (s.collect env chunk).clientGone = s.clientGone := by
  unfold collect
  split <;> rfl

/-- Past the read loop nothing is in the hands of the task. -/
theorem Stream.leaveLoop_item : (s.leaveLoop env).pc.item = [] := by
  unfold leaveLoop
  split
  · simp [StreamPc.item]
  · simp [StreamPc.item]

/-- The task takes the worker's next chunk. -/
theorem Stream.OnTheWay.read (h : s.OnTheWay u) {chunk : List UInt8} {rest : List (List UInt8)}
    (hp : s.pc = .reading) (hr : s.rest = chunk :: rest) :
    ({ { s with rest := rest }.collect env chunk with pc := .sending (.data chunk) } :
      Stream).OnTheWay u where
  open_ := by simpa using h.open_
  there := by simpa using h.there
  items := by
    have hitems := h.items
    rw [hp, hr] at hitems
    simpa [StreamPc.item] using hitems
  drained := by simp

/-- The worker's response has come to its end. -/
theorem Stream.OnTheWay.leaveLoop (h : s.OnTheWay u) (hp : s.pc.item = []) (hr : s.rest = []) :
    (s.leaveLoop env).OnTheWay u where
  open_ := h.open_
  there := h.there
  items := by
    have hitems := h.items
    rw [hp] at hitems
    rw [Stream.leaveLoop_item]
    exact hitems
  drained := fun _ => hr

/-- The task puts a chunk into the channel. -/
theorem Stream.OnTheWay.sent (h : s.OnTheWay u) {chunk : List UInt8}
    (hp : s.pc = .sending (.data chunk)) :
    ({ s with queue := s.queue ++ [.data chunk], pc := .reading } : Stream).OnTheWay u where
  open_ := h.open_
  there := h.there
  items := by
    have hitems := h.items
    rw [hp] at hitems
    simpa [StreamPc.item] using hitems
  drained := by simp

/-- The client reads an item. -/
theorem Stream.OnTheWay.taken (h : s.OnTheWay u) {item : Item} {queue : List Item}
    (hq : s.queue = item :: queue) :
    ({ s with queue := queue, received := s.received ++ [item] } : Stream).OnTheWay u where
  open_ := h.open_
  there := h.there
  items := by
    have hitems := h.items
    rw [hq] at hitems
    simpa using hitems
  drained := h.drained

/-- No error is ever sent. -/
theorem Stream.OnTheWay.not_error (h : s.OnTheWay u) : s.pc ≠ .sending .error := by
  intro hp
  have hmem : Item.error ∈ u.chunks.map Item.data := by
    rw [← h.items, hp]
    simp [StreamPc.item]
  obtain ⟨chunk, -, heq⟩ := List.mem_map.mp hmem
  exact absurd heq (by simp)

/-- What is left to do: a chunk is read, sent and taken. -/
def Stream.weight (s : Stream) : ℕ :=
  3 * s.rest.length + s.queue.length +
    match s.pc with
    | .reading => 2
    | .sending _ => 4
    | .recording => 1
    | .ended => 0

theorem Stream.weight_leaveLoop (hp : s.pc = .reading) :
    (s.leaveLoop env).weight < s.weight := by
  unfold weight
  rw [hp]
  unfold leaveLoop
  by_cases hsession : env.sessionId = ""
  · simp [hsession]
  · simp [hsession]

/-! ### The steps of the relay -/

theorem streamStep_chunk (hgone : s.clientGone = false) {chunk : List UInt8}
    {rest : List (List UInt8)} (hp : s.pc = .reading) (hr : s.rest = chunk :: rest) :
    streamStep env s .next =
      some ({ { s with rest := rest }.collect env chunk with
        pc := .sending (.data chunk) }, []) := by
  have hstill : ({ s with rest := rest }.collect env chunk).clientGone = false := by
    simpa using hgone
  unfold streamStep
  simp only [hp, hr] at hstill ⊢
  rw [hstill]
  rfl

theorem streamStep_eof (hp : s.pc = .reading) (hr : s.rest = []) :
    streamStep env s .next = some (s.leaveLoop env, []) := by
  unfold streamStep
  simp only [hp, hr]

theorem streamStep_send (hopen : s.open_ = true) {item : Item} (hp : s.pc = .sending item) :
    streamStep env s .next =
      if s.queue.length < channelCapacity then
        some ({ s with queue := s.queue ++ [item] }.afterSend env item, [])
      else none := by
  unfold streamStep
  simp only [hp]
  rw [hopen]
  rfl

theorem streamStep_recorded (outcome : Option RecordEnd) (hp : s.pc = .recording) :
    streamStep env s (.recorded outcome) = some ({ s with pc := .ended }, []) := by
  unfold streamStep
  simp only [hp]

theorem streamStep_take (hopen : s.open_ = true) {item : Item} {queue : List Item}
    (hq : s.queue = item :: queue) :
    streamStep env s .take =
      some ({ s with queue := queue, received := s.received ++ [item] }, []) := by
  unfold streamStep
  simp only [hq]
  rw [hopen]
  rfl

/-- **Every step keeps the chunks on their way**, and brings the task and its client nearer to
their end. -/
theorem Stream.OnTheWay.step {a : StreamAct} {tr : List Empty} (h : s.OnTheWay u)
    (ha : ReadToEnd tr s a) (hs : streamStep env s a = some (s', ev)) :
    s'.OnTheWay u ∧ s'.weight < s.weight := by
  cases a with
  | deadline | idle | broken | leave => exact ha.elim
  | next =>
    cases hp : s.pc with
    | reading =>
      cases hr : s.rest with
      | nil =>
        rw [streamStep_eof hp hr] at hs
        obtain ⟨rfl, -⟩ := Prod.mk.inj (Option.some.inj hs)
        exact ⟨h.leaveLoop (by rw [hp]; rfl) hr, Stream.weight_leaveLoop hp⟩
      | cons chunk rest =>
        rw [streamStep_chunk h.there hp hr] at hs
        obtain ⟨rfl, -⟩ := Prod.mk.inj (Option.some.inj hs)
        refine ⟨h.read hp hr, ?_⟩
        simp only [Stream.weight, Stream.collect_rest, Stream.collect_queue, hp, hr,
          List.length_cons]
        omega
    | sending item =>
      cases item with
      | error => exact absurd hp h.not_error
      | data chunk =>
        rw [streamStep_send h.open_ hp] at hs
        split at hs
        · obtain ⟨rfl, -⟩ := Prod.mk.inj (Option.some.inj hs)
          refine ⟨h.sent hp, ?_⟩
          simp only [Stream.afterSend, Stream.weight, hp, List.length_append,
            List.length_singleton]
          omega
        · exact absurd hs (by simp)
    | recording => simp [streamStep, hp] at hs
    | ended => simp [streamStep, hp] at hs
  | recorded outcome =>
    cases hp : s.pc with
    | recording =>
      rw [streamStep_recorded outcome hp] at hs
      obtain ⟨rfl, -⟩ := Prod.mk.inj (Option.some.inj hs)
      have hrest := h.drained (.inl hp)
      refine ⟨⟨h.open_, h.there, ?_, fun _ => hrest⟩, ?_⟩
      · have hitems := h.items
        rw [hp] at hitems
        exact hitems
      · simp [Stream.weight, hp]
    | reading | sending | ended => simp [streamStep, hp] at hs
  | take =>
    cases hq : s.queue with
    | nil => simp [streamStep, hq] at hs
    | cons item queue =>
      rw [streamStep_take h.open_ hq] at hs
      obtain ⟨rfl, -⟩ := Prod.mk.inj (Option.some.inj hs)
      refine ⟨h.taken hq, ?_⟩
      simp only [Stream.weight, hq, List.length_cons]
      omega

/-- Until the client has come to the end, somebody can go on. -/
theorem Stream.OnTheWay.goesOn (h : s.OnTheWay u) (hdone : ¬ s.Done) :
    ∃ a s', ReadToEnd [] s a ∧ streamStep env s a = some (s', []) := by
  cases hq : s.queue with
  | cons item queue => exact ⟨.take, _, trivial, streamStep_take h.open_ hq⟩
  | nil =>
    cases hp : s.pc with
    | reading =>
      cases hr : s.rest with
      | nil => exact ⟨.next, _, trivial, streamStep_eof hp hr⟩
      | cons chunk rest => exact ⟨.next, _, trivial, streamStep_chunk h.there hp hr⟩
    | sending item =>
      have hroom : s.queue.length < channelCapacity := by
        rw [hq]
        decide
      refine ⟨.next, { s with queue := s.queue ++ [item] }.afterSend env item, trivial, ?_⟩
      rw [streamStep_send h.open_ hp, if_pos hroom]
    | recording => exact ⟨.recorded (some .stored), _, trivial, streamStep_recorded _ hp⟩
    | ended => exact absurd ⟨hp, hq⟩ hdone

/-- The bytes of the items that carry chunks. -/
theorem flatMap_data (chunks : List (List UInt8)) :
    ((chunks.map Item.data).flatMap fun
      | .data chunk => chunk
      | .error => []) = chunks.flatten := by
  induction chunks with
  | nil => rfl
  | cons chunk chunks ih =>
    rw [List.map_cons, List.flatMap_cons, ih]
    rfl

/-- What the client has got is a beginning of the body, and all of it in the end. -/
theorem Stream.OnTheWay.body (h : s.OnTheWay u) :
    (s.response u).body <+: u.chunks.flatten ∧
      (s.Done → (s.response u).body = u.chunks.flatten) := by
  have hitems := h.items
  constructor
  · rw [← flatMap_data u.chunks, ← hitems, List.append_assoc, List.append_assoc,
      List.flatMap_append]
    exact List.prefix_append _ _
  · rintro ⟨hp, hq⟩
    rw [hq, hp, h.drained (.inr hp)] at hitems
    rw [← flatMap_data u.chunks, ← hitems]
    simp [Stream.response, StreamPc.item]

end Step

/-! ## Results -/

/-- **The client gets the response**: a beginning of the body at any time, all of it when the
channel has been dropped; until then the task or the client can go on, and no step takes
them back. -/
structure Stream.Delivers (env : StreamEnv) (u : UpstreamResponse) (s : Stream) : Prop where
  soFar : (s.response u).body <+: u.chunks.flatten
  done : s.Done → (s.response u).Relays u
  goesOn : ¬ s.Done → ∃ a s', ReadToEnd [] s a ∧ streamStep env s a = some (s', [])
  nearer : ∀ a s', ReadToEnd [] s a → streamStep env s a = some (s', []) → s'.weight < s.weight

/-- Every run keeps the chunks on their way. -/
theorem onTheWay_of_run {env : StreamEnv} {u : UpstreamResponse} {tr : List Empty} {s : Stream}
    (h : (streaming env u).Run ReadToEnd tr s) : s.OnTheWay u := by
  refine h.invariant (I := fun _ s => s.OnTheWay u) ?_ ?_
  · rintro s ⟨hrest, hgone, hqueue, hopen, hreceived, hp⟩
    refine ⟨hopen, hgone, ?_, by simp [hp]⟩
    rw [hrest, hqueue, hreceived, hp]
    rfl
  · intro tr s a s' ev _ ha hs hway
    exact (hway.step ha hs).1

/-- **The three ways give the client the worker's response**; whatever the collector, its buffer
and the end of the recording are on the way of the stream. -/
structure PathsAgree (overflowChecks : Bool) (parse : List UInt8 → Option Json) (asked : Asked)
    (durationMs : ℚ) (outcome : RecordEnd) (u : UpstreamResponse) : Prop where
  built : (buildResponse u).Relays u
  plain : ∃ r, plainResponse overflowChecks parse asked durationMs outcome u = some r ∧
    r.1.Relays u
  streamed : ∀ env tr s, (streaming env u).Run ReadToEnd tr s → s.Delivers env u

theorem buildResponse_relays (u : UpstreamResponse) : (buildResponse u).Relays u where
  status := rfl
  headers := by
    show (buildHeaders u.headers).iter = _
    rw [buildHeaders_eq, iter_streamHeaders]
  body := rfl

theorem delivers_of_run {env : StreamEnv} {u : UpstreamResponse} {tr : List Empty} {s : Stream}
    (h : (streaming env u).Run ReadToEnd tr s) : s.Delivers env u := by
  have hway := onTheWay_of_run h
  exact ⟨hway.body.1, fun hdone => ⟨rfl, iter_streamHeaders _, hway.body.2 hdone⟩,
    hway.goesOn, fun a s' ha hs => (hway.step ha hs).2⟩

/-- What the plain branch answers, if it answers, is the worker's response. -/
theorem plainResponse_relays {checks : Bool} {parse : List UInt8 → Option Json} {asked : Asked}
    {ms : ℚ} {outcome : RecordEnd} {u : UpstreamResponse} {r : Response × Option RecordEnd}
    (h : plainResponse checks parse asked ms outcome u = some r) : r.1.Relays u := by
  obtain ⟨recorded, -, rfl⟩ := Option.map_eq_some_iff.mp h
  refine ⟨rfl, ?_, rfl⟩
  show (MultiMap.ofPairs (outHeaders u.headers)).iter = _
  rw [← streamHeaders_eq, iter_streamHeaders]

/-- `record_from_response` panics on the counts of an answer that it reads. -/
theorem recordFromResponse_eq_none_iff (checks : Bool) (parse : List UInt8 → Option Json)
    (asked : Asked) (ms : ℚ) (outcome : RecordEnd) (bytes : List UInt8) :
    recordFromResponse checks parse asked ms outcome bytes = none ↔
      checks = true ∧ asked.sessionId ≠ "" ∧
        ∃ v, parse bytes = some v ∧ (Capture.ofAnswer v).overflows = true := by
  unfold recordFromResponse
  by_cases hsession : asked.sessionId = ""
  · simp [hsession]
  · cases hparse : parse bytes with
    | none => simp [hsession]
    | some v =>
      simp only [hsession, if_false, Option.map_eq_none_iff, TurnRow.buildTurn_eq_none_iff]
      simp [hsession]

/-- **The three ways agree**, and recording does not interfere, exactly when the recording does
not panic: unless overflow is checked, there is a session, and the plain answer's counts
overflow. -/
theorem response_paths_agree_iff (checks : Bool) (parse : List UInt8 → Option Json)
    (asked : Asked) (ms : ℚ) (outcome : RecordEnd) (u : UpstreamResponse) :
    PathsAgree checks parse asked ms outcome u ↔
      ¬ (checks = true ∧ asked.sessionId ≠ "" ∧
        ∃ v, parse u.chunks.flatten = some v ∧ (Capture.ofAnswer v).overflows = true) := by
  rw [← recordFromResponse_eq_none_iff checks parse asked ms outcome]
  constructor
  · rintro ⟨-, ⟨r, hr, -⟩, -⟩ hnone
    exact absurd hr (by simp [plainResponse, hnone])
  · intro hrecords
    obtain ⟨recorded, hrecorded⟩ := Option.ne_none_iff_exists'.mp hrecords
    have hplain := congrArg (Option.map fun recorded =>
      ((⟨u.status, .ofPairs (outHeaders u.headers), u.chunks.flatten⟩ : Response), recorded))
      hrecorded
    exact ⟨buildResponse_relays u, ⟨_, hplain, plainResponse_relays hplain⟩,
      fun _ _ _ => delivers_of_run⟩

/-- An answer whose counts are the greatest `i64` and one. -/
def fullCounts : Json :=
  .obj [("timings", .obj [("prompt_n", .int (2 ^ 63 - 1)), ("cache_n", .int 1)])]

/-- Its text. -/
def fullCountsText : List UInt8 :=
  asciiBytes
    "\x7b\"timings\":\x7b\"prompt_n\":9223372036854775807,\"cache_n\":1\x7d\x7d"

/-- `from_slice` on that text. -/
def parseFullCounts (bytes : List UInt8) : Option Json :=
  if bytes = fullCountsText then some fullCounts else none

/-- In a build with overflow checks the client of a plain completion gets no response. -/
theorem overflowing_answer_is_lost :
    ¬ ∀ checks parse asked ms outcome u, PathsAgree checks parse asked ms outcome u := by
  intro hall
  have hagree := hall true parseFullCounts ⟨"s", "a", none, none, none⟩ 1 .stored
    ⟨200, .empty, [fullCountsText]⟩
  obtain ⟨r, hr, -⟩ := hagree.plain
  have hnone : plainResponse true parseFullCounts ⟨"s", "a", none, none, none⟩ 1 .stored
      ⟨200, .empty, [fullCountsText]⟩ = none := by decide
  exact absurd (hnone.symm.trans hr) (by simp)

end LlmCtl
