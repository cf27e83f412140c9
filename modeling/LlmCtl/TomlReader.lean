/-
# Reading TOML

A reader of TOML 1.0 that takes one character at a time: `Mode` says where in a document it is,
with everything that is still open, and `step` is what a character does there.  A document is
read by folding `step` over its text; the end of the text ends the last line.

Buffers are kept in reverse.
-/
import LlmCtl.TomlDoc
import Mathlib.Algebra.Ring.Int.Defs
import Mathlib.Algebra.Ring.Nat

namespace Toml

/-! ## Characters -/

/-- `wschar`. -/
def isBlank (c : Char) : Bool := c == ' ' || c == '\t'

/-- `non-eol`: what may stand in a comment, or in a string on one line. -/
def isText (c : Char) : Bool := c == '\t' || (decide (0x20 ≤ c.toNat) && c.toNat != 0x7F)

/-- What a bare key is made of. -/
def isBare (c : Char) : Bool := c.isAlphanum || c == '-' || c == '_'

/-- What numbers, times and booleans are made of. -/
def isScalar (c : Char) : Bool := isBare c || c == '+' || c == '.' || c == ':'

def digitValue (c : Char) : ℕ :=
  if c.isDigit then c.toNat - '0'.toNat
  else if 'a' ≤ c ∧ c ≤ 'f' then c.toNat - 'a'.toNat + 10
  else if 'A' ≤ c ∧ c ≤ 'F' then c.toNat - 'A'.toNat + 10
  else 16

def isDigitOf (base : ℕ) (c : Char) : Bool := decide (digitValue c < base)

/-! ## Numbers, times and booleans -/

/-- Digits with single underscores between them. -/
def digits (base : ℕ) : List Char → Option (List Char)
  | [] => none
  | [c] => if isDigitOf base c then some [c] else none
  | c :: '_' :: cs => if isDigitOf base c then (digits base cs).map (c :: ·) else none
  | c :: cs => if isDigitOf base c then (digits base cs).map (c :: ·) else none

def number (base : ℕ) (ds : List Char) : ℕ := ds.foldl (fun n c => n * base + digitValue c) 0

/-- Is there a minus, and what follows the sign? -/
def splitSign : List Char → Bool × List Char
  | '-' :: cs => (true, cs)
  | '+' :: cs => (false, cs)
  | cs => (false, cs)

/-- `unsigned-dec-int`: no leading zeros. -/
def decimal (cs : List Char) : Option ℕ :=
  (digits 10 cs).bind fun ds =>
    if ds.head? = some '0' ∧ ds ≠ ['0'] then none else some (number 10 ds)

def integer : List Char → Option ℤ
  | '0' :: 'x' :: cs => (digits 16 cs).map fun ds => number 16 ds
  | '0' :: 'o' :: cs => (digits 8 cs).map fun ds => number 8 ds
  | '0' :: 'b' :: cs => (digits 2 cs).map fun ds => number 2 ds
  | cs => (decimal (splitSign cs).2).map fun n => if (splitSign cs).1 then -n else n

/-- `float`: an integer part with a fraction, an exponent or both, or `inf` or `nan`. -/
def isFloat (cs : List Char) : Bool :=
  let cs := (splitSign cs).2
  let mantissa := cs.takeWhile fun c => c != 'e' && c != 'E'
  let exponent := cs.dropWhile fun c => c != 'e' && c != 'E'
  let fraction := mantissa.dropWhile (· != '.')
  cs == ['i', 'n', 'f'] || cs == ['n', 'a', 'n'] ||
    (decimal (mantissa.takeWhile (· != '.'))).isSome &&
    (fraction == [] || (digits 10 (fraction.drop 1)).isSome) &&
    (exponent == [] || (digits 10 (splitSign (exponent.drop 1)).2).isSome) &&
    (fraction != [] || exponent != [])

def daysIn (year month : ℕ) : ℕ :=
  if month = 2 then if year % 4 = 0 ∧ (year % 100 ≠ 0 ∨ year % 400 = 0) then 29 else 28
  else if month = 4 ∨ month = 6 ∨ month = 9 ∨ month = 11 then 30
  else 31

/-- What follows a `full-date`. -/
def afterDate : List Char → Option (List Char)
  | a :: b :: c :: d :: '-' :: m :: n :: '-' :: x :: y :: cs =>
    let month := number 10 [m, n]
    let day := number 10 [x, y]
    if [a, b, c, d, m, n, x, y].all Char.isDigit ∧ 1 ≤ month ∧ month ≤ 12 ∧ 1 ≤ day ∧
        day ≤ daysIn (number 10 [a, b, c, d]) month then some cs
    else none
  | _ => none

/-- What follows a `partial-time`. -/
def afterClock : List Char → Option (List Char)
  | a :: b :: ':' :: c :: d :: ':' :: e :: f :: cs =>
    if [a, b, c, d, e, f].all Char.isDigit ∧ number 10 [a, b] ≤ 23 ∧ number 10 [c, d] ≤ 59 ∧
        number 10 [e, f] ≤ 60 then
      match cs with
      | '.' :: cs =>
        if (cs.takeWhile Char.isDigit) = [] then none else some (cs.dropWhile Char.isDigit)
      | cs => some cs
    else none
  | _ => none

/-- `time-offset`, or none. -/
def isOffset : List Char → Bool
  | [] | ['Z'] | ['z'] => true
  | [s, a, b, ':', c, d] =>
    (s == '+' || s == '-') && [a, b, c, d].all Char.isDigit &&
      decide (number 10 [a, b] ≤ 23) && decide (number 10 [c, d] ≤ 59)
  | _ => false

/-- A date, a time, or both. -/
def isTime (cs : List Char) : Bool :=
  match afterDate cs with
  | some [] => true
  | some (t :: cs) => (t == 'T' || t == 't' || t == ' ') && (afterClock cs).any isOffset
  | none => afterClock cs == some []

/-- The value of a token that is no string. -/
def scalarValue (cs : List Char) : Option Value :=
  if cs = ['t', 'r', 'u', 'e'] then some (.bool true)
  else if cs = ['f', 'a', 'l', 's', 'e'] then some (.bool false)
  else
    match integer cs with
    | some n => if -2 ^ 63 ≤ n ∧ n < 2 ^ 63 then some (.int n) else none
    | none => if isFloat cs then some (.float cs) else if isTime cs then some (.time cs) else none

/-! ## Where the reader is -/

/-- An open bracket around a value: an array with the items so far, or an inline table with the
entries so far and the key whose value is read. -/
inductive Frame where
  | array (items : List Value)
  | inline (entries : Entries) (key : List (List Char))

/-- Where a value is read: the key of the statement, and the open brackets, innermost first. -/
structure Place where
  key : List (List Char)
  frames : List Frame

/-- What a key is read for. -/
inductive KeyUse where
  | header
  | element
  | keyval
  | inline (entries : Entries) (outer : Place)

/-- What a string is read for: a part of a key, a value, or a value that runs over lines. -/
inductive StringUse where
  | key (u : KeyUse) (parts : List (List Char))
  | value (p : Place)
  | lines (p : Place)

inductive Mode where
  | lineStart
  /-- After a statement: only a comment may follow. -/
  | lineEnd
  | comment
  /-- After a carriage return, which a line feed must follow. -/
  | lineReturn
  | headerOpen
  | elementClose (key : List (List Char))
  | keyStart (u : KeyUse) (parts : List (List Char))
  | bareKey (u : KeyUse) (parts : List (List Char)) (buf : List Char)
  | keyEnd (u : KeyUse) (parts : List (List Char))
  | inlineOpen (p : Place)
  | valueStart (p : Place)
  /-- After a value in brackets. -/
  | valueEnd (p : Place)
  | arrayComment (p : Place) (ended : Bool)
  | arrayReturn (p : Place) (ended : Bool)
  | scalar (p : Place) (buf : List Char)
  /-- After a date and a space. -/
  | dateSpace (p : Place) (buf : List Char)
  /-- After one or two quotes at the beginning of a value. -/
  | quote (p : Place) (q : Char) (two : Bool)
  /-- After three. -/
  | quotes (p : Place) (q : Char)
  | basic (u : StringUse) (buf : List Char)
  | literal (u : StringUse) (buf : List Char)
  | escape (u : StringUse) (buf : List Char)
  /-- In a `\u` or `\U`, with so many digits to come. -/
  | unicode (u : StringUse) (buf : List Char) (left n : ℕ)
  /-- After a backslash at the end of a line; `fed` tells whether the line has ended. -/
  | trim (p : Place) (buf : List Char) (fed : Bool)
  | trimReturn (p : Place) (buf : List Char)
  /-- After a carriage return in a string over lines; `first` at its very beginning. -/
  | stringReturn (p : Place) (q : Char) (buf : List Char) (first : Bool)
  /-- After some quotes in a string over lines. -/
  | quotesEnd (p : Place) (q : Char) (buf : List Char) (n : ℕ)

/-- The reader: the document so far, and where it is. -/
structure State where
  doc : Doc := {}
  mode : Mode := .lineStart

/-! ## One character -/

def onLineEnd (d : Doc) (c : Char) : Option State :=
  if isBlank c then some ⟨d, .lineEnd⟩
  else if c = '#' then some ⟨d, .comment⟩
  else if c = '\n' then some ⟨d, .lineStart⟩
  else if c = '\r' then some ⟨d, .lineReturn⟩
  else none

/-- A value is complete: the statement ends, or the value joins the innermost brackets. -/
def endValue (d : Doc) (p : Place) (v : Value) : Option State :=
  match p.frames with
  | [] => (d.keyval p.key v).map fun d' => ⟨d', .lineEnd⟩
  | .array items :: fs => some ⟨d, .valueEnd ⟨p.key, .array (items ++ [v]) :: fs⟩⟩
  | .inline es key :: fs =>
    (insert v key es).map fun es' => ⟨d, .valueEnd ⟨p.key, .inline es' [] :: fs⟩⟩

def onValueEnd (d : Doc) (p : Place) (c : Char) : Option State :=
  match p.frames with
  | .array items :: fs =>
    if isBlank c || c == '\n' then some ⟨d, .valueEnd p⟩
    else if c = '\r' then some ⟨d, .arrayReturn p true⟩
    else if c = '#' then some ⟨d, .arrayComment p true⟩
    else if c = ',' then some ⟨d, .valueStart p⟩
    else if c = ']' then endValue d ⟨p.key, fs⟩ (.array items)
    else none
  | .inline es _ :: fs =>
    if isBlank c then some ⟨d, .valueEnd p⟩
    else if c = ',' then some ⟨d, .keyStart (.inline es ⟨p.key, fs⟩) []⟩
    else if c = '\x7d' then endValue d ⟨p.key, fs⟩ (.table .inline es)
    else none
  | [] => none

/-- The character after a complete value. -/
def onEnded (s : State) (c : Char) : Option State :=
  match s.mode with
  | .lineEnd => onLineEnd s.doc c
  | .valueEnd p => onValueEnd s.doc p c
  | _ => none

/-- A value ends just before the character. -/
def endBefore (d : Doc) (p : Place) (v : Option Value) (c : Char) : Option State :=
  (v.bind (endValue d p)).bind fun s => onEnded s c

def onKeyEnd (d : Doc) (u : KeyUse) (parts : List (List Char)) (c : Char) : Option State :=
  if isBlank c then some ⟨d, .keyEnd u parts⟩
  else if c = '.' then some ⟨d, .keyStart u parts⟩
  else
    match u with
    | .header => if c = ']' then (d.header parts).map fun d' => ⟨d', .lineEnd⟩ else none
    | .element => if c = ']' then some ⟨d, .elementClose parts⟩ else none
    | .keyval => if c = '=' then some ⟨d, .valueStart ⟨parts, []⟩⟩ else none
    | .inline es outer =>
      if c = '=' then some ⟨d, .valueStart ⟨outer.key, .inline es parts :: outer.frames⟩⟩ else none

def onKeyStart (d : Doc) (u : KeyUse) (parts : List (List Char)) (c : Char) : Option State :=
  if isBlank c then some ⟨d, .keyStart u parts⟩
  else if c = '"' then some ⟨d, .basic (.key u parts) []⟩
  else if c = '\'' then some ⟨d, .literal (.key u parts) []⟩
  else if isBare c then some ⟨d, .bareKey u parts [c]⟩
  else none

/-- The end of a string on one line. -/
def endString (d : Doc) (u : StringUse) (buf : List Char) (q : Char) : Option State :=
  match u with
  | .key u parts => some ⟨d, .keyEnd u (parts ++ [buf.reverse])⟩
  | .value p => endValue d p (.str buf.reverse)
  | .lines p => some ⟨d, .quotesEnd p q buf 1⟩

/-- The line breaks of a string over lines. -/
def onBreak (d : Doc) (u : StringUse) (q : Char) (buf : List Char) (c : Char)
    (on : List Char → Mode) : Option State :=
  match u with
  | .lines p =>
    if c = '\n' then some ⟨d, on (c :: buf)⟩
    else if c = '\r' then some ⟨d, .stringReturn p q buf false⟩
    else none
  | _ => none

def onBasic (d : Doc) (u : StringUse) (buf : List Char) (c : Char) : Option State :=
  if c = '"' then endString d u buf c
  else if c = '\\' then some ⟨d, .escape u buf⟩
  else if isText c then some ⟨d, .basic u (c :: buf)⟩
  else onBreak d u '"' buf c (.basic u)

def onLiteral (d : Doc) (u : StringUse) (buf : List Char) (c : Char) : Option State :=
  if c = '\'' then endString d u buf c
  else if isText c then some ⟨d, .literal u (c :: buf)⟩
  else onBreak d u '\'' buf c (.literal u)

/-- A character of a string with the quote `q`. -/
def onString (d : Doc) (u : StringUse) (q : Char) (buf : List Char) (c : Char) : Option State :=
  if q = '"' then onBasic d u buf c else onLiteral d u buf c

/-- The character that an escape stands for. -/
def escaped : Char → Option Char
  | 'b' => some '\x08'
  | 't' => some '\t'
  | 'n' => some '\n'
  | 'f' => some '\x0c'
  | 'r' => some '\r'
  | '"' => some '"'
  | '\\' => some '\\'
  | _ => none

def onEscape (d : Doc) (u : StringUse) (buf : List Char) (c : Char) : Option State :=
  match escaped c with
  | some e => some ⟨d, .basic u (e :: buf)⟩
  | none =>
    if c = 'u' then some ⟨d, .unicode u buf 4 0⟩
    else if c = 'U' then some ⟨d, .unicode u buf 8 0⟩
    else
      match u with
      | .lines p =>
        if isBlank c then some ⟨d, .trim p buf false⟩
        else if c = '\n' then some ⟨d, .trim p buf true⟩
        else if c = '\r' then some ⟨d, .trimReturn p buf⟩
        else none
      | _ => none

def onUnicode (d : Doc) (u : StringUse) (buf : List Char) (left n : ℕ) (c : Char) :
    Option State :=
  if isDigitOf 16 c then
    let n := n * 16 + digitValue c
    if left ≤ 1 then
      if n.isValidChar then some ⟨d, .basic u (Char.ofNat n :: buf)⟩ else none
    else some ⟨d, .unicode u buf (left - 1) n⟩
  else none

def onValueStart (d : Doc) (p : Place) (c : Char) : Option State :=
  if isBlank c then some ⟨d, .valueStart p⟩
  else if c = '"' ∨ c = '\'' then some ⟨d, .quote p c false⟩
  else if c = '[' then some ⟨d, .valueStart ⟨p.key, .array [] :: p.frames⟩⟩
  else if c = '\x7b' then some ⟨d, .inlineOpen p⟩
  else if isScalar c then some ⟨d, .scalar p [c]⟩
  else
    match p.frames with
    | .array items :: fs =>
      if c = '\n' then some ⟨d, .valueStart p⟩
      else if c = '\r' then some ⟨d, .arrayReturn p false⟩
      else if c = '#' then some ⟨d, .arrayComment p false⟩
      else if c = ']' then endValue d ⟨p.key, fs⟩ (.array items)
      else none
    | _ => none

/-- **One character.** -/
def step (s : State) (c : Char) : Option State :=
  let d := s.doc
  match s.mode with
  | .lineStart =>
    if isBlank c || c == '\n' then some s
    else if c = '\r' then some ⟨d, .lineReturn⟩
    else if c = '#' then some ⟨d, .comment⟩
    else if c = '[' then some ⟨d, .headerOpen⟩
    else onKeyStart d .keyval [] c
  | .lineEnd => onLineEnd d c
  | .comment =>
    if c = '\n' then some ⟨d, .lineStart⟩
    else if c = '\r' then some ⟨d, .lineReturn⟩
    else if isText c then some s
    else none
  | .lineReturn => if c = '\n' then some ⟨d, .lineStart⟩ else none
  | .headerOpen => if c = '[' then some ⟨d, .keyStart .element []⟩ else onKeyStart d .header [] c
  | .elementClose key =>
    if c = ']' then (d.element key).map fun d' => ⟨d', .lineEnd⟩ else none
  | .keyStart u parts => onKeyStart d u parts c
  | .bareKey u parts buf =>
    if isBare c then some ⟨d, .bareKey u parts (c :: buf)⟩
    else onKeyEnd d u (parts ++ [buf.reverse]) c
  | .keyEnd u parts => onKeyEnd d u parts c
  | .inlineOpen p =>
    if isBlank c then some s
    else if c = '\x7d' then endValue d p (.table .inline [])
    else onKeyStart d (.inline [] p) [] c
  | .valueStart p => onValueStart d p c
  | .valueEnd p => onValueEnd d p c
  | .arrayComment p ended =>
    if c = '\n' then some ⟨d, if ended then .valueEnd p else .valueStart p⟩
    else if c = '\r' then some ⟨d, .arrayReturn p ended⟩
    else if isText c then some s
    else none
  | .arrayReturn p ended =>
    if c = '\n' then some ⟨d, if ended then .valueEnd p else .valueStart p⟩ else none
  | .scalar p buf =>
    if isScalar c then some ⟨d, .scalar p (c :: buf)⟩
    else if c = ' ' ∧ afterDate buf.reverse = some [] then some ⟨d, .dateSpace p buf⟩
    else endBefore d p (scalarValue buf.reverse) c
  | .dateSpace p buf =>
    if c.isDigit then some ⟨d, .scalar p (c :: ' ' :: buf)⟩
    else endBefore d p (scalarValue buf.reverse) c
  | .quote p q two =>
    if two then if c = q then some ⟨d, .quotes p q⟩ else endBefore d p (some (.str [])) c
    else if c = q then some ⟨d, .quote p q true⟩
    else onString d (.value p) q [] c
  | .quotes p q =>
    if c = '\n' then some ⟨d, if q = '"' then .basic (.lines p) [] else .literal (.lines p) []⟩
    else if c = '\r' then some ⟨d, .stringReturn p q [] true⟩
    else onString d (.lines p) q [] c
  | .basic u buf => onBasic d u buf c
  | .literal u buf => onLiteral d u buf c
  | .escape u buf => onEscape d u buf c
  | .unicode u buf left n => onUnicode d u buf left n c
  | .trim p buf fed =>
    if isBlank c then some s
    else if c = '\n' then some ⟨d, .trim p buf true⟩
    else if c = '\r' then some ⟨d, .trimReturn p buf⟩
    else if fed then onBasic d (.lines p) buf c
    else none
  | .trimReturn p buf => if c = '\n' then some ⟨d, .trim p buf true⟩ else none
  | .stringReturn p q buf first =>
    if c = '\n' then
      let buf := if first then buf else c :: '\r' :: buf
      some ⟨d, if q = '"' then .basic (.lines p) buf else .literal (.lines p) buf⟩
    else none
  | .quotesEnd p q buf n =>
    if c = q then if n < 5 then some ⟨d, .quotesEnd p q buf (n + 1)⟩ else none
    else if 3 ≤ n then
      endBefore d p (some (.str (List.replicate (n - 3) q ++ buf).reverse)) c
    else onString d (.lines p) q (List.replicate n q ++ buf) c

/-! ## A whole text -/

/-- The reader after some text. -/
def read (s : State) (text : List Char) : Option State := text.foldlM step s

/-- The end of the text: it ends the line, where a line may end. -/
def finish (s : State) : Option Doc :=
  match s.mode with
  | .lineReturn => none
  | _ =>
    (step s '\n').bind fun s' =>
      match s'.mode with
      | .lineStart => some s'.doc
      | _ => none

/-- The complete document. -/
def complete (s : State) (text : List Char) : Option Doc := (read s text).bind finish

/-- **The root table of a document.** -/
def parse (text : List Char) : Option Entries := (complete {} text).map Doc.root

end Toml
