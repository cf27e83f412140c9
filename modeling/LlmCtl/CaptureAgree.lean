/-
# Streamed and plain capture (`proxy.rs`)

One completion result can be sent as one JSON body or as a stream of chunks.  A body is read by
`record_from_response`, which looks at the choice that is listed first; the chunks are read by
the `Collector`, which looks at the only choice of each chunk, whichever choice that is.  The two
turns describe choice 0 exactly when that makes no difference.
-/
import LlmCtl.StreamCollector
import Mathlib.Data.List.Forall2
import Mathlib.Data.List.Nodup

namespace LlmCtl

/-! ## A completion result -/

/-- A choice of a result: its index, its text and why it ended. -/
structure Choice where
  index : ℕ
  text : String
  finish : String

/-- `item` is the choice as JSON. -/
structure Choice.IsItem (choice : Choice) (item : Json) : Prop where
  index : item.get? "index" = some (.int choice.index)
  text : ((item.get? "message").bind fun m => m.get? "content") = some (.str choice.text)
  finish : item.get? "finish_reason" = some (.str choice.finish)

/-- A completion result; its choices are listed in any order. -/
structure Answer where
  id : String
  choices : List Choice
  distinct : (choices.map Choice.index).Nodup
  usage : Json
  timings : Json

namespace Answer

variable (R : Answer)

/-- The choice with an index. -/
def choice? (k : ℕ) : Option Choice := R.choices.find? fun c => c.index == k

/-- An index belongs to one choice. -/
theorem eq_of_index {c c' : Choice} (hc : c ∈ R.choices) (hc' : c' ∈ R.choices)
    (h : c.index = c'.index) : c = c' :=
  List.inj_on_of_nodup_map R.distinct hc hc' h

theorem choice?_eq_some_iff {k : ℕ} {c : Choice} :
    R.choice? k = some c ↔ c ∈ R.choices ∧ c.index = k := by
  constructor
  · intro h
    exact ⟨List.mem_of_find?_eq_some h, by simpa using List.find?_some h⟩
  · rintro ⟨hc, rfl⟩
    cases hfind : R.choice? c.index with
    | none =>
      have hne := List.find?_eq_none.mp hfind c hc
      exact absurd (beq_self_eq_true c.index) hne
    | some c' =>
      have hindex : c'.index = c.index := by simpa using List.find?_some hfind
      rw [eq_of_index R (List.mem_of_find?_eq_some hfind) hc hindex]

/-- Why choice `k` ended. -/
def finishOf (k : ℕ) : Option String := (R.choice? k).map Choice.finish

/-- The choice that is listed first has the text and the finish reason of choice 0. -/
structure FirstIsZero : Prop where
  text : (R.choices.head?.map Choice.text).getD "" = ((R.choice? 0).map Choice.text).getD ""
  finish : R.choices.head?.map Choice.finish = R.finishOf 0

/-- `v` is the result as one JSON body. -/
structure IsBody (v : Json) : Prop where
  id : v.get? "id" = some (.str R.id)
  choices : ∃ items, v.get? "choices" = some (.arr items) ∧
    List.Forall₂ Choice.IsItem R.choices items
  usage : v.get? "usage" = some R.usage
  timings : v.get? "timings" = some R.timings

end Answer

/-! ## The chunks of a stream -/

/-- The choice of a chunk: its index, its piece of text, and its finish reason; each of the last
two may be missing or null. -/
structure ChoiceDelta where
  index : ℕ
  text : Option String
  finish : Option String

/-- What a chunk says about the usage. -/
inductive UsageField where
  | absent
  | null
  | carried
  deriving DecidableEq

/-- The field itself. -/
def UsageField.json (R : Answer) : UsageField → Option Json
  | .absent => none
  | .null => some .null
  | .carried => some R.usage

/-- A chunk of a stream.  Timings may come more than once, each time up to date. -/
structure Chunk where
  choice : Option ChoiceDelta
  usage : UsageField
  timings : Option Json

/-- A field with a text, or none when it is missing or null. -/
def HasText (field : Option Json) : Option String → Prop
  | some s => field = some (.str s)
  | none => field = none ∨ field = some .null

/-- `v` is the chunk as JSON. -/
structure Chunk.IsJson (R : Answer) (c : Chunk) (v : Json) : Prop where
  id : v.get? "id" = some (.str R.id)
  choices : match c.choice with
    | none => v.get? "choices" = some (.arr [])
    | some d => ∃ ch, v.get? "choices" = some (.arr [ch]) ∧ ch.get? "index" = some (.int d.index) ∧
        HasText ((ch.get? "delta").bind fun x => x.get? "content") d.text ∧
        HasText (ch.get? "finish_reason") d.finish
  usage : v.get? "usage" = c.usage.json R
  timings : v.get? "timings" = c.timings

/-- The pieces of text, one after the other. -/
def joinTexts (ds : List ChoiceDelta) : String :=
  String.ofList (ds.flatMap fun d => (d.text.getD "").toList)

/-- The pieces of the choices of a stream, in order. -/
def deltas (chunks : List Chunk) : List ChoiceDelta := chunks.filterMap Chunk.choice

/-- The pieces send a choice: its text is cut into them, and only the last one says why it
ended. -/
def SendsChoice (choice : Choice) (ds : List ChoiceDelta) : Prop :=
  ∃ mids last, ds = mids ++ [last] ∧ (∀ d ∈ mids, d.finish = none) ∧
    last.finish = some choice.finish ∧ joinTexts ds = choice.text

/-- **The chunks are a way of sending the result**: the pieces of its choices in any order, the
usage in one chunk, the timings in the last chunk that has some. -/
structure Answer.SentAs (R : Answer) (chunks : List Chunk) : Prop where
  index : ∀ d ∈ deltas chunks, ∃ choice ∈ R.choices, choice.index = d.index
  choice : ∀ choice ∈ R.choices,
    SendsChoice choice ((deltas chunks).filter fun d => d.index == choice.index)
  usage : ∃ before last after, chunks = before ++ last :: after ∧ last.usage = .carried ∧
    (∀ c ∈ before, c.usage ≠ .carried) ∧ ∀ c ∈ after, c.usage ≠ .carried
  timings : (chunks.filterMap Chunk.timings).getLast? = some R.timings

/-- The lines are a stream of chunks: each `data: ` line is one of them, in order, and the last
one is `[DONE]`; other lines may stand anywhere. -/
def IsStream (parse : String → Option Json) (R : Answer) (chunks : List Chunk)
    (lines : List String) : Prop :=
  ∃ texts, lines.filterMap dataOf = texts ++ ["[DONE]"] ∧
    List.Forall₂ (fun c text => text ≠ "[DONE]" ∧ ∃ v, parse text = some v ∧ c.IsJson R v)
      chunks texts

/-! ## The collector after the chunks -/

/-- The lines of a stream, fed one after the other. -/
def streamCapture (parse : String → Option Json) (lines : List String) : Capture :=
  (lines.foldl (Collector.feed parse) {}).capture

/-- What the read loop feeds are the lines of the stream. -/
theorem readStream_capture {parse : String → Option Json} {sessionId : String}
    (hs : sessionId ≠ "") {bytes : List (List UInt8)}
    (h : LineBuffer.ShortLines isNewline maxSseBuf bytes.flatten) :
    (readStream parse sessionId bytes).capture = streamCapture parse
      ((LineBuffer.splitLines isNewline bytes.flatten).1.map fromUtf8Lossy) := by
  rw [readStream, if_neg hs, LineBuffer.readChunks_eq isNewline (feedBytes parse) {}
    (fun x hx => absurd hx List.not_mem_nil) bytes h, List.nil_append, streamCapture,
    List.foldl_map]
  rfl

/-- A line that is no data line is skipped. -/
theorem feed_of_not_data {parse : String → Option Json} {line : String} (h : dataOf line = none)
    (c : Collector) : c.feed parse line = c := by rw [Collector.feed, h]

/-- What is fed of a data line. -/
theorem feed_of_data {parse : String → Option Json} {line data : String}
    (h : dataOf line = some data) (c : Collector) : c.feed parse line
      = if data = "[DONE]" then c else ((parse data).map c.take).getD c := by
  rw [Collector.feed, h]
  by_cases hd : data = "[DONE]"
  · simp [hd]
  · cases hp : parse data <;> simp [hd, hp]

/-- Only data lines count. -/
theorem foldl_feed_of_stream {parse : String → Option Json} {lines : List String}
    (c : Collector) : lines.foldl (Collector.feed parse) c
      = (lines.filterMap dataOf).foldl (fun c data =>
          if data = "[DONE]" then c else ((parse data).map c.take).getD c) c := by
  induction lines generalizing c with
  | nil => rw [List.foldl_nil, List.filterMap_nil, List.foldl_nil]
  | cons line lines ih =>
    rw [List.foldl_cons, ih]
    cases hd : dataOf line with
    | none => rw [feed_of_not_data hd, List.filterMap_cons_none hd]
    | some data => rw [feed_of_data hd, List.filterMap_cons_some hd, List.foldl_cons]

/-- The collector after a chunk. -/
def Collector.takeChunk (R : Answer) (c : Collector) (ch : Chunk) : Collector where
  content := c.content ++ (ch.choice.bind ChoiceDelta.text).getD ""
  usage := (ch.usage.json R).or c.usage
  timings := ch.timings.or c.timings
  finish := (ch.choice.bind ChoiceDelta.finish).or c.finish
  id := some R.id

theorem HasText.bind_asStr {field text : Option _} (h : HasText field text) :
    field.bind Json.asStr = text := by
  cases text with
  | some s =>
    obtain rfl : field = some (.str s) := h
    rfl
  | none => rcases h with rfl | rfl <;> rfl

theorem Chunk.IsJson.take {R : Answer} {ch : Chunk} {v : Json} (h : ch.IsJson R v)
    (c : Collector) : c.take v = c.takeChunk R ch := by
  have hid : (v.get? "id").bind Json.asStr = some R.id := by
    rw [h.id]
    rfl
  have hchoices := h.choices
  unfold Collector.take Collector.takeChunk
  rw [h.usage, hid, h.timings]
  cases hd : ch.choice with
  | none =>
    simp only [hd] at hchoices
    rw [hchoices]
    rfl
  | some d =>
    simp only [hd] at hchoices
    obtain ⟨item, hitem, -, htext, hfinish⟩ := hchoices
    have hat : ((v.get? "choices").bind fun x => x.at? 0) = some item := by
      rw [hitem]
      rfl
    simp only [hat, Option.bind_some] at htext hfinish ⊢
    rw [htext.bind_asStr, hfinish.bind_asStr]
    rfl

/-- **The collector after a stream** is the one after its chunks. -/
theorem IsStream.foldl_feed {parse : String → Option Json} {R : Answer} {chunks : List Chunk}
    {lines : List String} (h : IsStream parse R chunks lines) :
    lines.foldl (Collector.feed parse) {} = chunks.foldl (Collector.takeChunk R) {} := by
  obtain ⟨texts, hlines, hall⟩ := h
  rw [foldl_feed_of_stream, hlines, List.foldl_append]
  clear hlines
  have htexts : ∀ c : Collector, texts.foldl (fun c data =>
      if data = "[DONE]" then c else ((parse data).map c.take).getD c) c
        = chunks.foldl (Collector.takeChunk R) c := by
    induction hall with
    | nil => exact fun c => rfl
    | cons hx _ ih =>
      intro c
      obtain ⟨hne, v, hv, hjson⟩ := hx
      rw [List.foldl_cons, List.foldl_cons, if_neg hne, hv, Option.map_some, Option.getD_some,
        hjson.take]
      exact ih _
  rw [htexts]
  simp

/-- The last of the values that are there. -/
theorem foldl_or {α β : Type*} (g : α → Option β) (l : List α) (a : Option β) :
    l.foldl (fun a x => (g x).or a) a = (l.filterMap g).getLast?.or a := by
  induction l generalizing a with
  | nil => rfl
  | cons x l ih =>
    rw [List.foldl_cons, ih, List.filterMap_cons]
    cases hx : g x with
    | none => rfl
    | some y =>
      cases hl : l.filterMap g with
      | nil => rfl
      | cons z zs => simp [List.getLast?_cons]

section Fold

variable (R : Answer) (chunks : List Chunk) (c : Collector)

theorem takeChunk_content : (chunks.foldl (Collector.takeChunk R) c).content
    = c.content ++ joinTexts (deltas chunks) := by
  induction chunks generalizing c with
  | nil => simp [joinTexts, deltas]
  | cons ch chunks ih =>
    rw [List.foldl_cons, ih, Collector.takeChunk]
    refine String.toList_inj.mp ?_
    cases hd : ch.choice with
    | none => simp [deltas, hd]
    | some d => simp [joinTexts, deltas, hd, List.append_assoc]

theorem takeChunk_finish : (chunks.foldl (Collector.takeChunk R) c).finish
    = ((deltas chunks).filterMap ChoiceDelta.finish).getLast?.or c.finish := by
  rw [deltas, List.filterMap_filterMap, ← foldl_or]
  exact (List.foldl_hom Collector.finish fun _ _ => rfl).symm

theorem takeChunk_timings : (chunks.foldl (Collector.takeChunk R) c).timings
    = (chunks.filterMap Chunk.timings).getLast?.or c.timings := by
  rw [← foldl_or]
  exact (List.foldl_hom Collector.timings fun _ _ => rfl).symm

theorem takeChunk_usage : (chunks.foldl (Collector.takeChunk R) c).usage
    = (chunks.filterMap fun ch => ch.usage.json R).getLast?.or c.usage := by
  rw [← foldl_or]
  exact (List.foldl_hom Collector.usage fun _ _ => rfl).symm

end Fold

/-- The id after a stream. -/
theorem Answer.SentAs.foldl_id {R : Answer} {chunks : List Chunk} (h : R.SentAs chunks) :
    (chunks.foldl (Collector.takeChunk R) {}).id = some R.id := by
  obtain ⟨before, last, after, rfl, -⟩ := h.usage
  rw [List.foldl_append, List.foldl_cons]
  generalize hc : (before.foldl (Collector.takeChunk R) {}).takeChunk R last = c
  have hid : c.id = some R.id := by rw [← hc, Collector.takeChunk]
  clear hc h
  induction after generalizing c with
  | nil => exact hid
  | cons ch after ih =>
    exact ih _ rfl

/-! ## One choice among others -/

/-- The choice that ends last in a stream. -/
def endsLast (chunks : List Chunk) : Option ℕ :=
  ((deltas chunks).filter fun d => d.finish.isSome).getLast?.map ChoiceDelta.index

/-- After the chunk with the usage, another one says that it is null. -/
def usageTakenBack (chunks : List Chunk) : Bool :=
  ((chunks.map Chunk.usage).filter fun u => decide (u ≠ .absent)).getLast? == some .null

/-- The characters of a piece. -/
def ChoiceDelta.chars (d : ChoiceDelta) : List Char := (d.text.getD "").toList

theorem joinTexts_toList (ds : List ChoiceDelta) :
    (joinTexts ds).toList = ds.flatMap ChoiceDelta.chars := String.toList_ofList

/-- The pieces of some choices and those of the others are all pieces. -/
theorem length_flatMap_filter (p : ChoiceDelta → Bool) (ds : List ChoiceDelta) :
    (ds.flatMap ChoiceDelta.chars).length
      = ((ds.filter p).flatMap ChoiceDelta.chars).length
        + ((ds.filter fun d => !p d).flatMap ChoiceDelta.chars).length := by
  induction ds with
  | nil => rfl
  | cons d ds ih =>
    by_cases hp : p d = true
    · simp only [List.filter_cons, hp, if_true, Bool.not_true, Bool.false_eq_true, if_false,
        List.flatMap_cons, List.length_append, ih]
      omega
    · rw [Bool.not_eq_true] at hp
      simp only [List.filter_cons, hp, if_true, Bool.not_false, Bool.false_eq_true, if_false,
        List.flatMap_cons, List.length_append, ih]
      omega

/-- Pieces without text do not count. -/
theorem flatMap_filter_of_empty {p : ChoiceDelta → Bool} {ds : List ChoiceDelta}
    (h : ∀ d ∈ ds, p d = false → d.chars = []) :
    ds.flatMap ChoiceDelta.chars = (ds.filter p).flatMap ChoiceDelta.chars := by
  induction ds with
  | nil => rfl
  | cons d ds ih =>
    have htail := ih fun x hx => h x (List.mem_cons_of_mem _ hx)
    by_cases hp : p d = true
    · rw [List.filter_cons_of_pos hp, List.flatMap_cons, List.flatMap_cons, htail]
    · rw [List.filter_cons_of_neg hp, List.flatMap_cons, htail,
        h d List.mem_cons_self (Bool.not_eq_true _ ▸ hp), List.nil_append]

/-- All pieces together are those of one choice exactly when no piece of another choice has
text. -/
theorem joinTexts_eq_filter_iff (p : ChoiceDelta → Bool) (ds : List ChoiceDelta) :
    joinTexts ds = joinTexts (ds.filter p) ↔ ∀ d ∈ ds, p d = false → d.chars = [] := by
  constructor
  · intro h d hd hp
    have hlen := congrArg (fun s => s.toList.length) h
    simp only [joinTexts_toList] at hlen
    rw [length_flatMap_filter p ds] at hlen
    have hnil : (ds.filter fun d => !p d).flatMap ChoiceDelta.chars = [] :=
      List.length_eq_zero_iff.mp (by omega)
    exact List.flatMap_eq_nil_iff.mp hnil d (List.mem_filter.mpr ⟨hd, by simp [hp]⟩)
  · intro h
    refine String.toList_inj.mp ?_
    rw [joinTexts_toList, joinTexts_toList]
    exact flatMap_filter_of_empty h

/-- The last of the values that are there is that of the last entry that has one. -/
theorem getLast?_filterMap_filter {α β : Type*} (f : α → Option β) (l : List α) :
    (l.filterMap f).getLast? = (l.filter fun x => (f x).isSome).getLast?.bind f := by
  induction l with
  | nil => rfl
  | cons x l ih =>
    cases hf : f x with
    | none => simp [hf, ih]
    | some y =>
      rw [List.filterMap_cons_some hf, List.filter_cons_of_pos (by simp [hf]), List.getLast?_cons,
        List.getLast?_cons, ih]
      cases hlast : (l.filter fun x => (f x).isSome).getLast? with
      | none => simp [hf]
      | some z =>
        obtain ⟨-, hz⟩ := List.mem_filter.mp (List.mem_of_getLast? hlast)
        obtain ⟨w, hw⟩ := Option.isSome_iff_exists.mp hz
        simp [hw]

section Agree

variable {R : Answer} {chunks : List Chunk} (h : R.SentAs chunks)

include h

/-- A choice's text is empty exactly when its pieces are. -/
theorem Answer.SentAs.text_eq_empty_iff {choice : Choice} (hk : choice ∈ R.choices) :
    choice.text = "" ↔ ∀ d ∈ deltas chunks, d.index = choice.index → d.chars = [] := by
  obtain ⟨mids, last, -, -, -, htext⟩ := h.choice choice hk
  rw [← htext, ← String.toList_inj, joinTexts_toList]
  simp only [String.toList_empty, List.flatMap_eq_nil_iff, List.mem_filter, beq_iff_eq, and_imp]

/-- The text of choice 0 is that of its pieces. -/
theorem Answer.SentAs.text_zero : ((R.choice? 0).map Choice.text).getD ""
    = joinTexts ((deltas chunks).filter fun d => d.index == 0) := by
  cases h0 : R.choice? 0 with
  | some choice =>
    obtain ⟨hmem, hindex⟩ := (R.choice?_eq_some_iff).mp h0
    obtain ⟨mids, last, -, -, -, htext⟩ := h.choice choice hmem
    rw [hindex] at htext
    rw [htext]
    rfl
  | none =>
    have hnil : (deltas chunks).filter (fun d => d.index == 0) = [] := by
      refine List.filter_eq_nil_iff.mpr fun d hd hzero => ?_
      obtain ⟨choice, hmem, hindex⟩ := h.index d hd
      have hfind := List.find?_eq_none.mp h0 choice hmem
      rw [hindex] at hfind
      exact hfind hzero
    rw [hnil]
    rfl

/-- **The texts agree** exactly when the other choices have none. -/
theorem Answer.SentAs.content_iff :
    joinTexts (deltas chunks) = ((R.choice? 0).map Choice.text).getD "" ↔
      ∀ choice ∈ R.choices, choice.index ≠ 0 → choice.text = "" := by
  rw [h.text_zero, joinTexts_eq_filter_iff]
  constructor
  · intro hall choice hchoice hne
    refine (h.text_eq_empty_iff hchoice).mpr fun d hd hdk => hall d hd ?_
    rw [hdk]
    simpa using hne
  · intro hall d hd hp
    obtain ⟨choice, hchoice, hindex⟩ := h.index d hd
    have hne : choice.index ≠ 0 := by
      rw [hindex]
      simpa using hp
    exact (h.text_eq_empty_iff hchoice).mp (hall choice hchoice hne) d hd hindex.symm

/-- A piece that says why its choice ended says it of that choice. -/
theorem Answer.SentAs.finish_eq {d : ChoiceDelta} (hd : d ∈ deltas chunks)
    (hf : d.finish.isSome) : d.finish = R.finishOf d.index := by
  obtain ⟨choice, hchoice, hindex⟩ := h.index d hd
  obtain ⟨mids, last, hds, hmids, hlast, -⟩ := h.choice choice hchoice
  have hmem : d ∈ (deltas chunks).filter fun x => x.index == choice.index :=
    List.mem_filter.mpr ⟨hd, by simp [hindex]⟩
  rw [hds] at hmem
  rcases List.mem_append.mp hmem with hmem | hmem
  · rw [hmids d hmem] at hf
    exact absurd hf (by simp)
  · obtain rfl := List.mem_singleton.mp hmem
    have hfind : R.choice? d.index = some choice :=
      (R.choice?_eq_some_iff).mpr ⟨hchoice, hindex⟩
    rw [hlast, Answer.finishOf, hfind]
    rfl

/-- The finish reason that the collector keeps is that of the choice that ends last. -/
theorem Answer.SentAs.lastFinish :
    ((deltas chunks).filterMap ChoiceDelta.finish).getLast?
      = (endsLast chunks).bind R.finishOf := by
  rw [getLast?_filterMap_filter, endsLast]
  cases hlast : ((deltas chunks).filter fun d => d.finish.isSome).getLast? with
  | none => rfl
  | some d =>
    obtain ⟨hd, hf⟩ := List.mem_filter.mp (List.mem_of_getLast? hlast)
    exact h.finish_eq hd hf

/-- **The finish reasons agree** exactly when the choice that ends last has that of the first. -/
theorem Answer.SentAs.finish_iff :
    ((deltas chunks).filterMap ChoiceDelta.finish).getLast? = R.finishOf 0 ↔
      ∀ k, endsLast chunks = some k → R.finishOf k = R.finishOf 0 := by
  rw [h.lastFinish]
  cases hlast : endsLast chunks with
  | some k => simp
  | none =>
    -- Nothing ends only when there is nothing to send.
    have hnil : R.finishOf 0 = none := by
      cases h0 : R.choice? 0 with
      | none => rw [Answer.finishOf, h0]; rfl
      | some choice =>
        obtain ⟨mids, last, hds, -, hf, -⟩ := h.choice choice (R.choice?_eq_some_iff.mp h0).1
        have hmem : last ∈ (deltas chunks).filter fun d => d.index == choice.index := by
          rw [hds]
          exact List.mem_append_right _ List.mem_cons_self
        have hsome : last ∈ (deltas chunks).filter fun d => d.finish.isSome :=
          List.mem_filter.mpr ⟨(List.mem_filter.mp hmem).1, by rw [hf]; rfl⟩
        rw [endsLast, Option.map_eq_none_iff, List.getLast?_eq_none_iff] at hlast
        rw [hlast] at hsome
        exact absurd hsome List.not_mem_nil
    rw [hnil]
    simp

/-- The usage that the collector keeps. -/
theorem Answer.SentAs.lastUsage : (chunks.filterMap fun ch => ch.usage.json R).getLast?
    = some (if usageTakenBack chunks then .null else R.usage) := by
  have hmap : (chunks.filterMap fun ch => ch.usage.json R)
      = (chunks.map Chunk.usage).filterMap (UsageField.json R) := by
    rw [List.filterMap_map]
    rfl
  have hsaid : (fun u : UsageField => (u.json R).isSome) = fun u => decide (u ≠ .absent) := by
    funext u
    cases u <;> rfl
  rw [hmap, getLast?_filterMap_filter, hsaid, usageTakenBack]
  cases hlast : ((chunks.map Chunk.usage).filter fun u => decide (u ≠ .absent)).getLast? with
  | none =>
    obtain ⟨before, last, after, rfl, hcarried, -⟩ := h.usage
    have hmem : UsageField.carried ∈ ((before ++ last :: after).map Chunk.usage).filter
        fun u => decide (u ≠ .absent) := by
      refine List.mem_filter.mpr ⟨?_, by decide⟩
      rw [← hcarried]
      exact List.mem_map_of_mem (List.mem_append_right _ List.mem_cons_self)
    rw [List.getLast?_eq_none_iff.mp hlast] at hmem
    exact absurd hmem List.not_mem_nil
  | some u =>
    have hne := (List.mem_filter.mp (List.mem_of_getLast? hlast)).2
    cases u with
    | absent => exact absurd hne (by decide)
    | null => rfl
    | carried => rfl

end Agree

/-! ## The two turns -/

/-- The turns describe the same answer; a missing text is an empty one. -/
structure TurnRow.SameAnswer (t u : TurnRow) : Prop where
  id : t.responseId = u.responseId
  content : t.responseContent.getD "" = u.responseContent.getD ""
  finish : t.responseFinishReason = u.responseFinishReason
  promptTokens : t.usagePromptTokens = u.usagePromptTokens
  completionTokens : t.usageCompletionTokens = u.usageCompletionTokens
  cachedTokens : t.usageCachedTokens = u.usageCachedTokens
  cacheN : t.cacheN = u.cacheN
  promptN : t.promptN = u.promptN
  predictedN : t.predictedN = u.predictedN
  promptMs : t.promptMs = u.promptMs
  promptPerSecond : t.promptPerSecond = u.promptPerSecond
  predictedMs : t.predictedMs = u.predictedMs
  predictedPerSecond : t.predictedPerSecond = u.predictedPerSecond

/-- The turn describes a choice, if there is one. -/
structure TurnRow.Describes (t : TurnRow) (choice : Option Choice) : Prop where
  content : t.responseContent.getD "" = (choice.map Choice.text).getD ""
  finish : t.responseFinishReason = choice.map Choice.finish

/-- The counts of the usage are those that the timings give. -/
structure UsageIsTimings (checks : Bool) (usage timings : Json) : Prop where
  prompt : 0 < numI (some usage) "prompt_tokens" →
    addI64 checks (numI (some timings) "prompt_n") (numI (some timings) "cache_n")
      = some (numI (some usage) "prompt_tokens")
  completion : 0 < numI (some usage) "completion_tokens" →
    numI (some usage) "completion_tokens" = numI (some timings) "predicted_n"
  cached : 0 < cachedTokens (some usage) →
    cachedTokens (some usage) = numI (some timings) "cache_n"

/-- Two usages give the same counts. -/
structure SameCounts (checks : Bool) (usage usage' timings : Option Json) : Prop where
  prompt : TurnRow.promptTokens checks usage timings = TurnRow.promptTokens checks usage' timings
  completion : TurnRow.completionTokens usage timings = TurnRow.completionTokens usage' timings
  cached : TurnRow.usedCache usage timings = TurnRow.usedCache usage' timings

/-- Without a usage all counts come from the timings. -/
theorem sameCounts_null_iff {checks : Bool} {usage timings : Json} :
    SameCounts checks (some .null) (some usage) (some timings) ↔
      UsageIsTimings checks usage timings := by
  have hprompt : TurnRow.promptTokens checks (some .null) (some timings)
      = addI64 checks (numI (some timings) "prompt_n") (numI (some timings) "cache_n") := rfl
  have hcompletion : TurnRow.completionTokens (some .null) (some timings)
      = numI (some timings) "predicted_n" := rfl
  have hcached : TurnRow.usedCache (some .null) (some timings)
      = numI (some timings) "cache_n" := rfl
  constructor
  · rintro ⟨h1, h2, h3⟩
    rw [hprompt, TurnRow.promptTokens] at h1
    rw [hcompletion, TurnRow.completionTokens] at h2
    rw [hcached, TurnRow.usedCache] at h3
    refine ⟨fun hpos => ?_, fun hpos => ?_, fun hpos => ?_⟩
    · rw [h1, if_pos hpos]
    · rw [h2, if_pos hpos]
    · rw [h3, if_pos hpos]
  · rintro ⟨h1, h2, h3⟩
    refine ⟨?_, ?_, ?_⟩
    · rw [hprompt, TurnRow.promptTokens]
      split
      · rename_i hpos
        exact h1 hpos
      · rfl
    · rw [hcompletion, TurnRow.completionTokens]
      split
      · rename_i hpos
        exact (h2 hpos).symm
      · rfl
    · rw [hcached, TurnRow.usedCache]
      split
      · rename_i hpos
        exact (h3 hpos).symm
      · rfl

/-- Turns of captures with the same id and timings differ in the text, the finish reason and the
counts at most. -/
theorem sameAnswer_iff {checks : Bool} {asked asked' : Asked} {cap cap' : Capture} {ms ms' : ℚ}
    {u : TurnRow} (hid : cap'.id = cap.id) (htimings : cap'.timings = cap.timings)
    (hu : TurnRow.buildTurn checks asked cap ms = some u) :
    (∃ t, TurnRow.buildTurn checks asked' cap' ms' = some t ∧ t.SameAnswer u) ↔
      (cap'.content.getD "" = cap.content.getD "" ∧ cap'.finish = cap.finish) ∧
        SameCounts checks cap'.usage cap.usage cap.timings := by
  obtain ⟨n, hn, rfl⟩ := Option.map_eq_some_iff.mp hu
  unfold TurnRow.buildTurn
  rw [htimings, hid]
  constructor
  · rintro ⟨t, ht, hsame⟩
    obtain ⟨m, hm, rfl⟩ := Option.map_eq_some_iff.mp ht
    have hmn : m = n := hsame.promptTokens
    refine ⟨⟨hsame.content, hsame.finish⟩, ?_, hsame.completionTokens, hsame.cachedTokens⟩
    rw [hm, hn, hmn]
  · rintro ⟨⟨hcontent, hfinish⟩, hprompt, hcompletion, hcached⟩
    rw [hprompt, hn]
    exact ⟨_, rfl, rfl, hcontent, hfinish, rfl, hcompletion, hcached, rfl, rfl, rfl, rfl, rfl, rfl,
      rfl⟩

/-- The turn of the body describes what the body captures. -/
theorem describes_iff {checks : Bool} {asked : Asked} {cap : Capture} {ms : ℚ} {u : TurnRow}
    {choice : Option Choice} (hu : TurnRow.buildTurn checks asked cap ms = some u) :
    u.Describes choice ↔ cap.content.getD "" = (choice.map Choice.text).getD "" ∧
      cap.finish = choice.map Choice.finish := by
  obtain ⟨n, -, rfl⟩ := Option.map_eq_some_iff.mp hu
  exact ⟨fun h => ⟨h.content, h.finish⟩, fun h => ⟨h.1, h.2⟩⟩

/-- What is captured of the body. -/
theorem Answer.IsBody.capture {R : Answer} {body : Json} (h : R.IsBody body) :
    Capture.ofAnswer body = ⟨some R.id, R.choices.head?.map Choice.text,
      R.choices.head?.map Choice.finish, some R.usage, some R.timings⟩ := by
  obtain ⟨items, hitems, hall⟩ := h.choices
  have hat : ((body.get? "choices").bind fun c => c.at? 0) = items.head? := by
    rw [hitems, List.head?_eq_getElem?]
    rfl
  unfold Capture.ofAnswer
  simp only [hat, h.usage, h.timings, h.id, Option.bind_some, Json.asStr]
  generalize R.choices = choices at hall
  cases hall with
  | nil => rfl
  | cons hitem _ =>
    simp only [List.head?_cons, Option.bind_some, hitem.finish, hitem.text, Json.asStr,
      Option.map_some]

/-- What is captured of the stream. -/
theorem Answer.SentAs.capture {parse : String → Option Json} {R : Answer} {chunks : List Chunk}
    {lines : List String} (h : R.SentAs chunks) (hs : IsStream parse R chunks lines) :
    streamCapture parse lines =
      ⟨some R.id, if joinTexts (deltas chunks) = "" then none else some (joinTexts (deltas chunks)),
        ((deltas chunks).filterMap ChoiceDelta.finish).getLast?,
        some (if usageTakenBack chunks then .null else R.usage), some R.timings⟩ := by
  have hcontent := takeChunk_content R chunks {}
  have hfinish := takeChunk_finish R chunks {}
  have htimings := takeChunk_timings R chunks {}
  have husage := takeChunk_usage R chunks {}
  rw [h.timings] at htimings
  rw [h.lastUsage] at husage
  simp only [String.empty_append, Option.or_none] at hcontent hfinish htimings husage
  unfold streamCapture Collector.capture
  rw [hs.foldl_feed, hcontent, hfinish, htimings, husage, h.foldl_id]

/-- **Both turns describe choice 0** exactly when the other choices have no text, the choice that
ends last ended like choice 0, the choice listed first says the same as choice 0, and no null
follows the usage unless the timings say what the usage said. -/
theorem capture_agrees_iff {checks : Bool} {parse : String → Option Json} {R : Answer}
    {chunks : List Chunk} {lines : List String} {body : Json} {asked asked' : Asked} {ms ms' : ℚ}
    {u : TurnRow} (hbody : R.IsBody body) (hsent : R.SentAs chunks)
    (hstream : IsStream parse R chunks lines)
    (hu : TurnRow.buildTurn checks asked (Capture.ofAnswer body) ms = some u) :
    ((∃ t, TurnRow.buildTurn checks asked' (streamCapture parse lines) ms' = some t ∧
        t.SameAnswer u) ∧ u.Describes (R.choice? 0)) ↔
      (∀ choice ∈ R.choices, choice.index ≠ 0 → choice.text = "") ∧
      (∀ k, endsLast chunks = some k → R.finishOf k = R.finishOf 0) ∧ R.FirstIsZero ∧
      (usageTakenBack chunks = true → UsageIsTimings checks R.usage R.timings) := by
  have hdescribes : u.Describes (R.choice? 0) ↔ _ := describes_iff hu
  rw [hbody.capture] at hu hdescribes
  have hfirst : u.Describes (R.choice? 0) ↔ R.FirstIsZero :=
    hdescribes.trans ⟨fun h => ⟨h.1, h.2⟩, fun h => ⟨h.text, h.finish⟩⟩
  have hcounts : SameCounts checks (some (if usageTakenBack chunks then .null else R.usage))
      (some R.usage) (some R.timings) ↔
        (usageTakenBack chunks = true → UsageIsTimings checks R.usage R.timings) := by
    cases usageTakenBack chunks with
    | true => simpa using sameCounts_null_iff
    | false => simpa using SameCounts.mk rfl rfl rfl
  have htext : (if joinTexts (deltas chunks) = "" then none else some (joinTexts (deltas chunks))
      : Option String).getD "" = joinTexts (deltas chunks) := by
    split
    · rename_i hempty
      rw [hempty]
      rfl
    · rfl
  rw [hsent.capture hstream, sameAnswer_iff (by rfl) (by rfl) hu, htext, hcounts, hfirst,
    ← hsent.content_iff, ← hsent.finish_iff]
  constructor
  · rintro ⟨⟨⟨hcontent, hfinish⟩, husage⟩, hzero⟩
    exact ⟨hcontent.trans hzero.text, hfinish.trans hzero.finish, hzero, husage⟩
  · rintro ⟨hcontent, hfinish, hzero, husage⟩
    exact ⟨⟨⟨hcontent.trans hzero.text.symm, hfinish.trans hzero.finish.symm⟩, husage⟩, hzero⟩

/-! ## Samples -/

/-- An object as text. -/
def objText (fields : String) : String := "\x7b" ++ fields ++ "\x7d"

theorem dataOf_objText (fields : String) :
    dataOf ("data: " ++ objText fields) = some (objText fields) :=
  dataOf_data (e := '}') String.toList_append (by decide)

/-- A stream of objects, an empty line after each. -/
def sseLines (fields : List String) : List String :=
  (fields.flatMap fun f => ["data: " ++ objText f, ""]) ++ ["data: [DONE]"]

theorem sseLines_data (fields : List String) :
    (sseLines fields).filterMap dataOf = fields.map objText ++ ["[DONE]"] := by
  have hempty : dataOf "" = none := by decide
  have hdone : dataOf "data: [DONE]" = some "[DONE]" := by decide
  rw [sseLines, List.filterMap_append, List.filterMap_cons_some hdone, List.filterMap_nil]
  congr 1
  induction fields with
  | nil => rfl
  | cons f fields ih =>
    rw [List.flatMap_cons, List.filterMap_append, ih, List.filterMap_cons_some (dataOf_objText f),
      List.filterMap_cons_none hempty, List.filterMap_nil, List.map_cons, List.singleton_append]

theorem objText_ne_done (fields : String) : objText fields ≠ "[DONE]" := by
  intro h
  have hlist := congrArg String.toList h
  rw [objText, String.toList_append, String.toList_append] at hlist
  exact absurd (List.cons.inj hlist).1 (by decide)

/-- The chunk that sends a choice in one piece, as JSON and as text. -/
def pieceJson (k : ℕ) (text : String) : Json :=
  .obj [("id", .str "r"), ("choices", .arr [.obj [("index", .int k),
    ("delta", .obj [("content", .str text)]), ("finish_reason", .str "stop")]])]

def pieceText (k text : String) : String :=
  "\"id\":\"r\",\"choices\":[\x7b\"index\":" ++ k ++ ",\"delta\":\x7b\"content\":\"" ++ text ++
    "\"\x7d,\"finish_reason\":\"stop\"\x7d]"

/-- The chunk with the usage and the timings. -/
def usageJson : Json :=
  .obj [("id", .str "r"), ("choices", .arr []), ("usage", .obj [("prompt_tokens", .int 3)]),
    ("timings", .obj [("prompt_n", .int 3)])]

def usageText : String :=
  "\"id\":\"r\",\"choices\":[],\"usage\":\x7b\"prompt_tokens\":3\x7d,\"timings\":" ++
    "\x7b\"prompt_n\":3\x7d"

/-- `from_str` on the sample texts. -/
def parseSample (text : String) : Option Json :=
  if text = objText (pieceText "0" "a") then some (pieceJson 0 "a")
  else if text = objText (pieceText "1" "b") then some (pieceJson 1 "b")
  else if text = objText usageText then some usageJson
  else none

/-- A result with given choices. -/
def sampleAnswer (choices : List Choice) (h : (choices.map Choice.index).Nodup) : Answer where
  id := "r"
  choices := choices
  distinct := h
  usage := .obj [("prompt_tokens", .int 3)]
  timings := .obj [("prompt_n", .int 3)]

/-- A choice of a body. -/
def Choice.item (c : Choice) : Json :=
  .obj [("index", .int c.index), ("message", .obj [("content", .str c.text)]),
    ("finish_reason", .str c.finish)]

/-- The result as one body. -/
def sampleBody (choices : List Choice) : Json :=
  .obj [("id", .str "r"), ("choices", .arr (choices.map Choice.item)),
    ("usage", .obj [("prompt_tokens", .int 3)]), ("timings", .obj [("prompt_n", .int 3)])]

theorem isBody_sample (choices : List Choice) (h : (choices.map Choice.index).Nodup) :
    (sampleAnswer choices h).IsBody (sampleBody choices) where
  id := rfl
  choices := ⟨_, rfl, List.forall₂_map_right_iff.mpr
    (List.forall₂_same.mpr fun _ _ => ⟨rfl, rfl, rfl⟩)⟩
  usage := rfl
  timings := rfl

/-- One choice, and two. -/
def oneAnswer : Answer := sampleAnswer [⟨0, "a", "stop"⟩] (by decide)

def twoAnswer : Answer := sampleAnswer [⟨0, "a", "stop"⟩, ⟨1, "b", "stop"⟩] (by decide)

/-- The piece of a choice that is sent in one. -/
def samplePiece (k : ℕ) (text : String) : Chunk :=
  ⟨some ⟨k, some text, some "stop"⟩, .absent, none⟩

/-- The last chunk. -/
def usageChunk : Chunk := ⟨none, .carried, some (.obj [("prompt_n", .int 3)])⟩

theorem samplePiece_isJson (R : Answer) (hid : R.id = "r") (k : ℕ) (text : String) :
    (samplePiece k text).IsJson R (pieceJson k text) where
  id := hid ▸ rfl
  choices := ⟨_, rfl, rfl, rfl, rfl⟩
  usage := rfl
  timings := rfl

theorem usageChunk_isJson (choices : List Choice) (h : (choices.map Choice.index).Nodup) :
    usageChunk.IsJson (sampleAnswer choices h) usageJson where
  id := rfl
  choices := rfl
  usage := rfl
  timings := rfl

theorem parseSample_zero : parseSample (objText (pieceText "0" "a")) = some (pieceJson 0 "a") :=
  if_pos rfl

theorem parseSample_one : parseSample (objText (pieceText "1" "b")) = some (pieceJson 1 "b") := by
  rw [parseSample, if_neg (by decide), if_pos rfl]

theorem parseSample_usage : parseSample (objText usageText) = some usageJson := by
  rw [parseSample, if_neg (by decide), if_neg (by decide), if_pos rfl]

/-- The streams of the two results. -/
def oneLines : List String := sseLines [pieceText "0" "a", usageText]

def twoLines : List String := sseLines [pieceText "0" "a", pieceText "1" "b", usageText]

theorem isStream_one :
    IsStream parseSample oneAnswer [samplePiece 0 "a", usageChunk] oneLines :=
  ⟨_, sseLines_data _,
    .cons ⟨objText_ne_done _, _, parseSample_zero, samplePiece_isJson _ rfl 0 "a"⟩
      (.cons ⟨objText_ne_done _, _, parseSample_usage, usageChunk_isJson _ _⟩ .nil)⟩

theorem isStream_two : IsStream parseSample twoAnswer
    [samplePiece 0 "a", samplePiece 1 "b", usageChunk] twoLines :=
  ⟨_, sseLines_data _,
    .cons ⟨objText_ne_done _, _, parseSample_zero, samplePiece_isJson _ rfl 0 "a"⟩
      (.cons ⟨objText_ne_done _, _, parseSample_one, samplePiece_isJson _ rfl 1 "b"⟩
        (.cons ⟨objText_ne_done _, _, parseSample_usage, usageChunk_isJson _ _⟩ .nil))⟩

/-- A choice that is sent in one piece. -/
theorem sendsChoice_piece {c : Choice} {ds : List ChoiceDelta}
    (hds : ds = [⟨c.index, some c.text, some c.finish⟩]) : SendsChoice c ds := by
  refine ⟨[], _, hds, fun d hd => absurd hd List.not_mem_nil, rfl, ?_⟩
  rw [hds, joinTexts, List.flatMap_singleton]
  exact String.ofList_toList

theorem sentAs_one : oneAnswer.SentAs [samplePiece 0 "a", usageChunk] where
  index := by
    intro d hd
    obtain rfl := List.mem_singleton.mp hd
    exact ⟨_, List.mem_cons_self, rfl⟩
  choice := by
    intro choice hchoice
    obtain rfl := List.mem_singleton.mp hchoice
    exact sendsChoice_piece rfl
  usage := ⟨[samplePiece 0 "a"], usageChunk, [], rfl, rfl, by simp [samplePiece], by simp⟩
  timings := rfl

theorem sentAs_two :
    twoAnswer.SentAs [samplePiece 0 "a", samplePiece 1 "b", usageChunk] where
  index := by
    intro d hd
    rcases List.mem_cons.mp hd with rfl | hd
    · exact ⟨_, List.mem_cons_self, rfl⟩
    · obtain rfl := List.mem_singleton.mp hd
      exact ⟨_, List.mem_cons_of_mem _ List.mem_cons_self, rfl⟩
  choice := by
    intro choice hchoice
    rcases List.mem_cons.mp hchoice with rfl | hchoice
    · exact sendsChoice_piece rfl
    · obtain rfl := List.mem_singleton.mp hchoice
      exact sendsChoice_piece rfl
  usage := ⟨[samplePiece 0 "a", samplePiece 1 "b"], usageChunk, [], rfl, rfl,
    by simp [samplePiece], by simp⟩
  timings := rfl

theorem capture_agrees_iff_one :
    ∃ t u, TurnRow.buildTurn true ⟨"s", "a", none, none, none⟩
        (streamCapture parseSample oneLines) 1 = some t ∧
      TurnRow.buildTurn true ⟨"s", "a", none, none, none⟩
        (Capture.ofAnswer (sampleBody [⟨0, "a", "stop"⟩])) 1 = some u ∧
      t.SameAnswer u ∧ u.Describes (some ⟨0, "a", "stop"⟩) := by
  obtain ⟨u, hu⟩ := Option.isSome_iff_exists.mp (show (TurnRow.buildTurn true
    ⟨"s", "a", none, none, none⟩ (Capture.ofAnswer (sampleBody [⟨0, "a", "stop"⟩])) 1).isSome
      = true by decide)
  have hlast : endsLast [samplePiece 0 "a", usageChunk] = some 0 := rfl
  obtain ⟨⟨t, ht, hsame⟩, hzero⟩ :=
    (capture_agrees_iff (isBody_sample _ _) sentAs_one isStream_one hu).mpr
      ⟨fun choice hchoice hne => absurd (List.mem_singleton.mp hchoice ▸ rfl) hne,
        fun k hk => by rw [← Option.some.inj (hlast.symm.trans hk)], ⟨rfl, rfl⟩,
        fun hnull => absurd hnull (by decide)⟩
  exact ⟨t, u, ht, hu, hsame, hzero⟩

/-- **Two streamed choices run together**: the text of the turn is that of both. -/
theorem streamed_choices_mix :
    ¬ ∀ checks parse R chunks lines body asked ms u, Answer.IsBody R body →
      R.SentAs chunks → IsStream parse R chunks lines →
      TurnRow.buildTurn checks asked (Capture.ofAnswer body) ms = some u →
      (∃ t, TurnRow.buildTurn checks asked (streamCapture parse lines) ms = some t ∧
        t.SameAnswer u) ∧ u.Describes (R.choice? 0) := by
  intro hall
  obtain ⟨u, hu⟩ := Option.isSome_iff_exists.mp (show (TurnRow.buildTurn true
    ⟨"s", "a", none, none, none⟩ (Capture.ofAnswer (sampleBody twoAnswer.choices)) 1).isSome = true
      by decide)
  obtain ⟨⟨t, ht, hsame⟩, -⟩ := hall true parseSample _ _ _ _ _ _ u
    (isBody_sample _ (by decide)) sentAs_two isStream_two hu
  have hcontent := hsame.content
  rw [TurnRow.buildTurn_content ht, TurnRow.buildTurn_content hu, sentAs_two.capture isStream_two]
    at hcontent
  exact absurd hcontent (by decide)

end LlmCtl
