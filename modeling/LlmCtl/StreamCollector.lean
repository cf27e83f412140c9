/-
# The collector of a stream (`proxy.rs`)

While a streamed answer passes through, `stream_and_record` cuts its bytes into lines and feeds
them to a `Collector`, which gathers what a turn needs.  The bytes arrive in chunks that
have nothing to do with the lines.

`parse` stands for `serde_json::from_str`.
-/
import LlmCtl.LineBuffer
import LlmCtl.SessionId
import LlmCtl.TurnRow

namespace LlmCtl

/-! ## Text -/

/-- `str::strip_prefix`. -/
def stripPrefix (lead s : String) : Option String :=
  if lead.toList.isPrefixOf s.toList then some (String.ofList (s.toList.drop lead.toList.length))
  else none

/-- A character whose bytes have not all been read: how many are missing, between which bounds
the next one lies, and the bits so far. -/
structure PartialChar where
  missing : ℕ
  low : UInt8
  high : UInt8
  bits : ℕ

/-- U+FFFD. -/
def replacementChar : Char := Char.ofNat 0xFFFD

/-- `String::from_utf8_lossy`: the first byte of a character. -/
def lossyLead (b : UInt8) : List Char × Option PartialChar :=
  if b < 0x80 then ([Char.ofNat b.toNat], none)
  else if 0xC2 ≤ b ∧ b ≤ 0xDF then ([], some ⟨1, 0x80, 0xBF, b.toNat % 32⟩)
  else if b = 0xE0 then ([], some ⟨2, 0xA0, 0xBF, 0⟩)
  else if b = 0xED then ([], some ⟨2, 0x80, 0x9F, 13⟩)
  else if 0xE1 ≤ b ∧ b ≤ 0xEF then ([], some ⟨2, 0x80, 0xBF, b.toNat % 16⟩)
  else if b = 0xF0 then ([], some ⟨3, 0x90, 0xBF, 0⟩)
  else if 0xF1 ≤ b ∧ b ≤ 0xF3 then ([], some ⟨3, 0x80, 0xBF, b.toNat % 8⟩)
  else if b = 0xF4 then ([], some ⟨3, 0x80, 0x8F, 4⟩)
  else ([replacementChar], none)

/-- `String::from_utf8_lossy` within a character: a byte that does not continue it ends it with a
replacement character, and is read again. -/
def lossyNext (c : PartialChar) (b : UInt8) : List Char × Option PartialChar :=
  if c.low ≤ b ∧ b ≤ c.high then
    let bits := c.bits * 64 + b.toNat % 64
    if c.missing = 1 then ([Char.ofNat bits], none)
    else ([], some ⟨c.missing - 1, 0x80, 0xBF, bits⟩)
  else (replacementChar :: (lossyLead b).1, (lossyLead b).2)

def lossyChars : Option PartialChar → List UInt8 → List Char
  | none, [] => []
  | some _, [] => [replacementChar]
  | none, b :: bs => (lossyLead b).1 ++ lossyChars (lossyLead b).2 bs
  | some c, b :: bs => (lossyNext c b).1 ++ lossyChars (lossyNext c b).2 bs

/-- `String::from_utf8_lossy`. -/
def fromUtf8Lossy (bytes : List UInt8) : String := String.ofList (lossyChars none bytes)

example : fromUtf8Lossy [0x68, 0xC3, 0xA9, 0xE2, 0x82, 0x21, 0xFF] = "hé\uFFFD!\uFFFD" := by
  decide

/-! ## The collector -/

/-- `Collector`. -/
structure Collector where
  content : String := ""
  usage : Option Json := none
  timings : Option Json := none
  finish : Option String := none
  id : Option String := none

/-- The data of a line: what follows `data: `. -/
def dataOf (line : String) : Option String := stripPrefix "data: " (trim line)

/-- Nothing is trimmed off a text that neither begins nor ends with white space. -/
theorem trim_eq_self {s : String} {c e : Char} {cs ds : List Char} (hc : s.toList = c :: cs)
    (he : s.toList = ds ++ [e]) (hcw : isWhiteSpace c = false) (hew : isWhiteSpace e = false) :
    trim s = s := by
  have hleft : s.toList.dropWhile isWhiteSpace = s.toList := by
    rw [hc, List.dropWhile_cons_of_neg (by simp [hcw])]
  have hright : s.toList.reverse.dropWhile isWhiteSpace = s.toList.reverse := by
    rw [he, List.reverse_append, List.reverse_singleton, List.singleton_append,
      List.dropWhile_cons_of_neg (by simp [hew])]
  rw [trim, hleft, hright, List.reverse_reverse, String.ofList_toList]

/-- The data of a data line whose text does not end with white space. -/
theorem dataOf_data {text : String} {e : Char} {ds : List Char} (he : text.toList = ds ++ [e])
    (hew : isWhiteSpace e = false) : dataOf ("data: " ++ text) = some text := by
  have hfirst : ("data: " ++ text).toList = 'd' :: (['a', 't', 'a', ':', ' '] ++ text.toList) := by
    rw [String.toList_append]
    rfl
  have hlast : ("data: " ++ text).toList = ("data: ".toList ++ ds) ++ [e] := by
    rw [String.toList_append, he, List.append_assoc]
  have htrim : trim ("data: " ++ text) = "data: " ++ text :=
    trim_eq_self hfirst hlast (by decide) hew
  rw [dataOf, htrim, stripPrefix, String.toList_append, if_pos, List.drop_left,
    String.ofList_toList]
  exact List.isPrefixOf_iff_prefix.mpr (List.prefix_append _ _)

namespace Collector

/-- `Collector::feed`, once the data is decoded. -/
def take (c : Collector) (v : Json) : Collector :=
  let ch := (v.get? "choices").bind fun c => c.at? 0
  let delta := ((ch.bind fun ch => ch.get? "delta").bind fun d => d.get? "content").bind Json.asStr
  { content := c.content ++ delta.getD ""
    usage := (v.get? "usage").or c.usage
    timings := (v.get? "timings").or c.timings
    finish := ((ch.bind fun ch => ch.get? "finish_reason").bind Json.asStr).or c.finish
    id := ((v.get? "id").bind Json.asStr).or c.id }

/-- `Collector::feed`. -/
def feed (parse : String → Option Json) (c : Collector) (line : String) : Collector :=
  match dataOf line with
  | none => c
  | some data =>
    if data = "[DONE]" then c
    else
      match parse data with
      | none => c
      | some v => c.take v

/-- `stream_and_record`: what the turn is built from. -/
def capture (c : Collector) : Capture where
  id := c.id
  content := if c.content = "" then none else some c.content
  finish := c.finish
  usage := c.usage
  timings := c.timings

end Collector

/-! ## The read loop -/

/-- `MAX_SSE_BUF`. -/
def maxSseBuf : ℕ := 64 * 1024

/-- `b'\n'`. -/
def isNewline (b : UInt8) : Bool := b == 10

/-- A line of bytes is decoded and fed. -/
def feedBytes (parse : String → Option Json) (c : Collector) (line : List UInt8) : Collector :=
  c.feed parse (fromUtf8Lossy line)

/-- `stream_and_record`: the collector after the chunks of the read loop.  Without a session the
chunks are only passed on. -/
def readStream (parse : String → Option Json) (sessionId : String) (chunks : List (List UInt8)) :
    Collector :=
  if sessionId = "" then {}
  else (LineBuffer.readChunks isNewline (feedBytes parse) maxSseBuf ({}, []) chunks).1

/-- The collector that is fed every terminated line of the whole stream. -/
def feedLines (parse : String → Option Json) (bytes : List UInt8) : Collector :=
  (LineBuffer.splitLines isNewline bytes).1.foldl (feedBytes parse) {}

/-- **Chunking does not matter** for a stream with a session, as long as no line outgrows the
buffer; without a session nothing is collected. -/
theorem readStream_eq (parse : String → Option Json) (sessionId : String)
    (chunks : List (List UInt8))
    (h : LineBuffer.ShortLines isNewline maxSseBuf chunks.flatten) :
    readStream parse sessionId chunks
      = if sessionId = "" then {} else feedLines parse chunks.flatten := by
  unfold readStream
  split
  · rfl
  · exact LineBuffer.readChunks_eq isNewline (feedBytes parse) {}
      (fun x hx => absurd hx List.not_mem_nil) chunks h

/-- A stream that fits the buffer has no long lines. -/
theorem shortLines_of_length {bytes : List UInt8} (h : bytes.length ≤ maxSseBuf) :
    LineBuffer.ShortLines isNewline maxSseBuf bytes :=
  fun _ hseg _ => hseg.length_le.trans h

/-- One line with an id. -/
def idText : String := "\x7b\"id\":\"x\"\x7d"

/-- `from_str` on that line. -/
def parseId (text : String) : Option Json :=
  if text = idText then some (.obj [("id", .str "x")]) else none

/-- The line as it is sent, cut within a word. -/
def idChunks : List (List UInt8) :=
  [("da".toList.map fun c => c.toNat.toUInt8),
    (("ta: " ++ idText ++ "\n").toList.map fun c => c.toNat.toUInt8)]

theorem idChunks_short : LineBuffer.ShortLines isNewline maxSseBuf idChunks.flatten :=
  shortLines_of_length (by decide)

theorem readStream_eq_idChunks :
    (readStream parseId "s" idChunks).id = some "x" := by
  rw [readStream_eq parseId "s" idChunks idChunks_short]
  decide

/-- **Without a session nothing is collected.** -/
theorem readStream_without_session :
    ¬ ∀ parse sessionId chunks, LineBuffer.ShortLines isNewline maxSseBuf chunks.flatten →
      readStream parse sessionId chunks = feedLines parse chunks.flatten := by
  intro hall
  have heq := congrArg Collector.id (hall parseId "" idChunks idChunks_short)
  exact absurd heq (by decide)

end LlmCtl
