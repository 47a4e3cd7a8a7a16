import ExprRegistry.Json.Basic
import ExprRegistry.Text.DecimalDigit

/-!
Reading documents. A document is one value with white space around it; the spellings of the numbers that
are not finite are read as well, and an escaped surrogate that is in no pair is a half of a character. A refused
document is refused for one `Complaint` at one place, and `ReadError.message` gives line and column of it. A
repeated key keeps its first place and its last value. `read` takes documents of the whole language; `load` also
refuses integers of so many digits that they have no text.
-/

namespace ExprRegistry.Json

/-- Why a document is refused. -/
inductive Complaint where
  | byteOrderMark
  | value
  | propertyName
  | colon
  | comma
  | extraData
  | unterminatedText
  | controlCharacter
  | escape
  | unicodeEscape
  /-- An integer of too many digits. -/
  | digits
  deriving DecidableEq

namespace Complaint

def words : Complaint → String
  | byteOrderMark => "Unexpected UTF-8 BOM (decode using utf-8-sig)"
  | value => "Expecting value"
  | propertyName => "Expecting property name enclosed in double quotes"
  | colon => "Expecting ':' delimiter"
  | comma => "Expecting ',' delimiter"
  | extraData => "Extra data"
  | unterminatedText => "Unterminated string starting at"
  | controlCharacter => "Invalid control character at"
  | escape => "Invalid \\escape"
  | unicodeEscape => "Invalid \\uXXXX escape"
  | digits => "Exceeds the limit for integer string conversion"

end Complaint

/-- A complaint and how many characters are left from its place on. -/
structure Refusal where
  complaint : Complaint
  left : Nat

def isGap (c : Char) : Bool := c == ' ' || c == '\t' || c == '\n' || c == '\r'

def skipGap (cs : List Char) : List Char := cs.dropWhile isGap

def escape? : Char → Option Char
  | '"' => some '"'
  | '\\' => some '\\'
  | '/' => some '/'
  | 'b' => some '\x08'
  | 'f' => some '\x0c'
  | 'n' => some '\n'
  | 'r' => some '\r'
  | 't' => some '\t'
  | _ => none

/-- The number that four hexadecimal digits at the front write, and what follows them. -/
def hexUnit? : List Char → Option (Nat × List Char)
  | a :: b :: c :: d :: rest => do
    let a ← Text.hexValue? a
    let b ← Text.hexValue? b
    let c ← Text.hexValue? c
    let d ← Text.hexValue? d
    pure (((a * 16 + b) * 16 + c) * 16 + d, rest)
  | _ => none

def moreThanFour : List Char → Bool
  | _ :: _ :: _ :: _ :: _ :: _ => true
  | _ => false

/-- Reads the escape whose four digits `rest` begins with. A high surrogate takes a low one that
follows it along; something must follow the escape. -/
def readUnicode (rest : List Char) : Except Refusal (Text.Point × List Char) :=
  match (if moreThanFour rest then hexUnit? rest else none) with
  | none => .error ⟨.unicodeEscape, rest.length + 1⟩
  | some (unit, after) =>
    if 0xD800 ≤ unit && unit < 0xDC00 then
      match after with
      | '\\' :: 'u' :: second =>
        if moreThanFour second then
          match hexUnit? second with
          | none => .error ⟨.unicodeEscape, second.length + 1⟩
          | some (low, later) =>
            if 0xDC00 ≤ low && low < 0xE000 then
              .ok (.inl (Char.ofNat (0x10000 + (unit - 0xD800) * 0x400 + (low - 0xDC00))), later)
            else .ok (Text.pointOf unit, after)
        else .ok (Text.pointOf unit, after)
      | _ => .ok (Text.pointOf unit, after)
    else .ok (Text.pointOf unit, after)

/-- Reads a text up to its closing quote; `opening` is what followed the opening one. -/
def readText (opening : List Char) : Nat → List Char → Except Refusal (List Text.Point × List Char)
  | 0, _ => .error ⟨.unterminatedText, opening.length + 1⟩
  | _ + 1, [] => .error ⟨.unterminatedText, opening.length + 1⟩
  | fuel + 1, c :: rest =>
    if c == '"' then .ok ([], rest)
    else if c == '\\' then
      match rest with
      | [] => .error ⟨.unterminatedText, opening.length + 1⟩
      | d :: rest =>
        if d == 'u' then
          match readUnicode rest with
          | .error r => .error r
          | .ok (p, rest) => (readText opening fuel rest).map fun (ps, rest) => (p :: ps, rest)
        else
          match escape? d with
          | none => .error ⟨.escape, rest.length + 2⟩
          | some e => (readText opening fuel rest).map fun (ps, rest) => (.inl e :: ps, rest)
    else if c.toNat < 0x20 then .error ⟨.controlCharacter, rest.length + 1⟩
    else (readText opening fuel rest).map fun (ps, rest) => (.inl c :: ps, rest)

def readQuoted (fuel : Nat) (rest : List Char) : Except Refusal (Text × List Char) :=
  (readText rest fuel rest).map fun (ps, rest) => (.ofPoints ps, rest)

def fractionPart (cs : List Char) : List Char × List Char :=
  match cs with
  | '.' :: d :: rest =>
    if Text.isAsciiDigit d then
      ((d :: rest).takeWhile Text.isAsciiDigit, (d :: rest).dropWhile Text.isAsciiDigit)
    else ([], cs)
  | _ => ([], cs)

def exponentPart (cs : List Char) : Option Int × List Char :=
  match cs with
  | e :: rest =>
    if e == 'e' || e == 'E' then
      let (negative, digits) := match rest with
        | '-' :: more => (true, more)
        | '+' :: more => (false, more)
        | _ => (false, rest)
      let written := digits.takeWhile Text.isAsciiDigit
      if written.isEmpty then (none, cs)
      else
        let n : Int := Text.numberOf written
        (some (if negative then -n else n), digits.dropWhile Text.isAsciiDigit)
    else (none, cs)
  | [] => (none, cs)

/-- A minus, if there is one. -/
def minusPart : List Char → Bool × List Char
  | '-' :: rest => (true, rest)
  | cs => (false, cs)

/-- The digits before a fraction: a zero is one by itself. -/
def wholePart? : List Char → Option (List Char × List Char)
  | '0' :: rest => some (['0'], rest)
  | d :: rest =>
    if Text.isAsciiDigit d then
      some ((d :: rest).takeWhile Text.isAsciiDigit, (d :: rest).dropWhile Text.isAsciiDigit)
    else none
  | [] => none

/-- Reads what follows the digits in front: the number is an integer unless it has a fraction or an exponent. -/
def numberFrom (negative : Bool) (whole cs : List Char) : Json × List Char :=
  let (fraction, rest) := fractionPart cs
  let (exponent, rest) := exponentPart rest
  if fraction.isEmpty && exponent.isNone then
    let n : Int := Text.numberOf whole
    (.int (if negative then -n else n), rest)
  else
    let places : Int := fraction.length
    (.float (Double.ofDecimal negative (Text.numberOf (whole ++ fraction))
      (exponent.getD 0 - places)), rest)

def readNumber? (cs : List Char) : Option (Json × List Char) :=
  let (negative, body) := minusPart cs
  (wholePart? body).map fun (whole, rest) => numberFrom negative whole rest

def wordValues : List (List Char × Json) :=
  [("null".toList, .null), ("true".toList, .bool true), ("false".toList, .bool false),
   ("NaN".toList, .float Double.nan), ("Infinity".toList, .float (Double.infinity false)),
   ("-Infinity".toList, .float (Double.infinity true))]

/-- Reads a word or a number. Where the reader is limited, an integer needs a text. -/
def readAtom (limited : Bool) (cs : List Char) : Except Refusal (Json × List Char) :=
  match wordValues.findSome? fun (word, v) => (word.isPrefixOf? cs).map fun rest => (v, rest) with
  | some found => .ok found
  | none =>
    match readNumber? cs with
    | some (v, rest) => if limited && !v.hasText then .error ⟨.digits, cs.length⟩ else .ok (v, rest)
    | none => .error ⟨.value, cs.length⟩

mutual

def readValue (limited : Bool) : Nat → List Char → Except Refusal (Json × List Char)
  | 0, cs => .error ⟨.value, cs.length⟩
  | fuel + 1, cs =>
    match cs with
    | '"' :: rest => (readQuoted fuel rest).map fun (t, rest) => (.text t, rest)
    | '[' :: rest =>
      match skipGap rest with
      | ']' :: rest => .ok (.arr [], rest)
      | inside => (readItems limited fuel inside).map fun (items, rest) => (.arr items, rest)
    | '\x7b' :: rest =>
      match skipGap rest with
      | '\x7d' :: rest => .ok (.obj [], rest)
      | inside => (readFields limited fuel [] inside).map fun (fields, rest) => (.obj fields, rest)
    | _ => readAtom limited cs

def readItems (limited : Bool) : Nat → List Char → Except Refusal (List Json × List Char)
  | 0, cs => .error ⟨.value, cs.length⟩
  | fuel + 1, cs =>
    match readValue limited fuel cs with
    | .error r => .error r
    | .ok (v, rest) =>
      match skipGap rest with
      | ']' :: rest => .ok ([v], rest)
      | ',' :: rest =>
        (readItems limited fuel (skipGap rest)).map fun (items, rest) => (v :: items, rest)
      | other => .error ⟨.comma, other.length⟩

/-- Reads the entries of an object and its closing brace; `before` holds the entries so far. -/
def readFields (limited : Bool) : Nat → Fields → List Char →
    Except Refusal (Fields × List Char)
  | 0, _, cs => .error ⟨.propertyName, cs.length⟩
  | fuel + 1, before, cs =>
    match cs with
    | '"' :: rest =>
      match readQuoted fuel rest with
      | .error r => .error r
      | .ok (key, rest) =>
        match skipGap rest with
        | ':' :: rest =>
          match readValue limited fuel (skipGap rest) with
          | .error r => .error r
          | .ok (v, rest) =>
            let fields := before.put (.str key) v
            match skipGap rest with
            | '\x7d' :: rest => .ok (fields, rest)
            | ',' :: rest => readFields limited fuel fields (skipGap rest)
            | other => .error ⟨.comma, other.length⟩
        | other => .error ⟨.colon, other.length⟩
    | _ => .error ⟨.propertyName, cs.length⟩

end

def readDocument (limited : Bool) (cs : List Char) : Except Refusal Json :=
  match cs with
  | '\uFEFF' :: _ => .error ⟨.byteOrderMark, cs.length⟩
  | _ =>
    match readValue limited (2 * cs.length + 2) (skipGap cs) with
    | .error r => .error r
    | .ok (v, rest) =>
      match skipGap rest with
      | [] => .ok v
      | other => .error ⟨.extraData, other.length⟩

/-- A refused document: the complaint and the characters before its place. -/
structure ReadError where
  complaint : Complaint
  before : List Char

def ReadError.message (e : ReadError) : String :=
  let line := e.before.count '\n' + 1
  let column := (e.before.reverse.takeWhile (· != '\n')).length + 1
  s!"{e.complaint.words}: line {line} column {column} (char {e.before.length})"

def readWith (limited : Bool) (text : String) : Except ReadError Json :=
  let cs := text.toList
  (readDocument limited cs).mapError fun r => ⟨r.complaint, cs.take (cs.length - r.left)⟩

def read (text : String) : Except ReadError Json := readWith false text

def load (text : String) : Except ReadError Json := readWith true text

end ExprRegistry.Json
