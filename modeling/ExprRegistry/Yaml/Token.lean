import ExprRegistry.Yaml.Plain
import ExprRegistry.Yaml.Quoted

/-!
The tokens of a YAML document. Indentation becomes tokens that open and close blocks. A key is known as
one only by the colon after it, so the start of everything that may be a key is kept until its line ends;
a key is one line of at most 1024 characters. Anchors, tags, directives and literal blocks are not read: a
text that needs them counts as broken.
-/

namespace ExprRegistry.Yaml

/-- A token. -/
inductive Token where
  | sequenceStart
  | mappingStart
  | blockEnd
  | flowSequenceStart
  | flowSequenceEnd
  | flowMappingStart
  | flowMappingEnd
  | dash
  | comma
  | key
  | value
  | plain (text : List Char)
  | quoted (text : Text)
  | documentStart
  | documentEnd
  deriving DecidableEq

/-- The start of what may be a key: the number of tokens before it, its place, and whether it must be a
key because an entry of a mapping begins there. -/
structure KeyStart where
  number : Nat
  required : Bool
  index : Nat
  line : Nat
  column : Nat

def maxKeyLength : Nat := 1024

/-- The state of a reader of tokens. -/
structure Lexer where
  cursor : Cursor
  tokens : List Token := []
  count : Nat := 0
  indents : List Nat := []
  pending : Option KeyStart := none
  /-- The possible keys around the open flow collections, the innermost first. -/
  outer : List (Option KeyStart) := []
  allowKey : Bool := true

namespace Lexer

def inFlow (s : Lexer) : Bool := !s.outer.isEmpty

def emit (s : Lexer) (t : Token) : Lexer := { s with tokens := t :: s.tokens, count := s.count + 1 }

/-- Adds tokens, the last one first, before all tokens but the first `number`. -/
def insert (s : Lexer) (number : Nat) (added : List Token) : Lexer :=
  let later := s.count - number
  { s with
    tokens := s.tokens.take later ++ added ++ s.tokens.drop later
    count := s.count + added.length }

def advance (s : Lexer) (n : Nat) : Lexer := { s with cursor := s.cursor.advance n }

/-- A possible key that is still possible at a place; nothing when it had to be one. -/
def keepKey (c : Cursor) : Option KeyStart → Option (Option KeyStart)
  | none => some none
  | some k =>
    if k.line != c.line || maxKeyLength < c.index - k.index then
      if k.required then none else some none
    else some (some k)

def dropStale (s : Lexer) : Option Lexer :=
  match keepKey s.cursor s.pending, s.outer.mapM (keepKey s.cursor) with
  | some pending, some outer => some { s with pending := pending, outer := outer }
  | _, _ => none

def closeTo (column : Nat) : List Nat → Lexer → Lexer
  | [], s => { s with indents := [] }
  | i :: rest, s =>
    if column < i then closeTo column rest (s.emit .blockEnd) else { s with indents := i :: rest }

def unindent (s : Lexer) : Lexer :=
  if s.inFlow then s else closeTo s.cursor.column s.indents s

def closeAll (s : Lexer) : Lexer :=
  if s.inFlow then s
  else { s.indents.foldl (fun s _ => s.emit .blockEnd) s with indents := [] }

def opensBlock (s : Lexer) (column : Nat) : Bool :=
  match s.indents with
  | [] => true
  | i :: _ => i < column

def openBlock (s : Lexer) (column : Nat) (t : Token) : Lexer :=
  if s.opensBlock column then { s.emit t with indents := column :: s.indents } else s

/-- Forgets the possible key of the innermost collection; nothing when it had to be a key. -/
def dropKey (s : Lexer) : Option Lexer :=
  match s.pending with
  | some k => if k.required then none else some { s with pending := none }
  | none => some s

def saveKey (s : Lexer) : Option Lexer :=
  if s.allowKey then
    s.dropKey.map fun s =>
      let required := !s.inFlow && s.indents.head? == some s.cursor.column
      { s with
        pending := some ⟨s.count, required, s.cursor.index, s.cursor.line, s.cursor.column⟩ }
  else some s

def openFlow (s : Lexer) (t : Token) : Option Lexer :=
  s.saveKey.map fun s =>
    { (s.emit t).advance 1 with outer := s.pending :: s.outer, pending := none, allowKey := true }

def closeFlow (s : Lexer) (t : Token) : Option Lexer :=
  s.dropKey.bind fun s =>
    match s.outer with
    | [] => none
    | pending :: outer =>
      some { (s.emit t).advance 1 with pending := pending, outer := outer, allowKey := false }

def readComma (s : Lexer) : Option Lexer :=
  s.dropKey.map fun s => { (s.emit .comma).advance 1 with allowKey := true }

def readDash (s : Lexer) : Option Lexer :=
  if s.inFlow || !s.allowKey then none
  else
    (s.openBlock s.cursor.column .sequenceStart).dropKey.map fun s =>
      { (s.emit .dash).advance 1 with allowKey := true }

def readKeyMark (s : Lexer) : Option Lexer :=
  if !s.inFlow && !s.allowKey then none
  else
    let s := if s.inFlow then s else s.openBlock s.cursor.column .mappingStart
    s.dropKey.map fun s => { (s.emit .key).advance 1 with allowKey := !s.inFlow }

/-- Reads the colon before a value. What was kept as a possible key is one. -/
def readColon (s : Lexer) : Option Lexer :=
  match s.pending with
  | some k =>
    let opened :=
      if !s.inFlow && s.opensBlock k.column then
        { s.insert k.number [.key, .mappingStart] with indents := k.column :: s.indents }
      else s.insert k.number [.key]
    some { (opened.emit .value).advance 1 with pending := none, allowKey := false }
  | none =>
    if !s.inFlow && !s.allowKey then none
    else
      let s := if s.inFlow then s else s.openBlock s.cursor.column .mappingStart
      some { (s.emit .value).advance 1 with allowKey := !s.inFlow }

def readMarker (s : Lexer) (t : Token) : Option Lexer :=
  s.closeAll.dropKey.map fun s => { (s.emit t).advance 3 with allowKey := false }

def readQuotedToken (fuel : Nat) (s : Lexer) : Option Lexer :=
  s.saveKey.bind fun s =>
    (readQuoted fuel s.cursor).map fun (text, c) =>
      { s.emit (.quoted text) with cursor := c, allowKey := false }

def readPlainToken (fuel : Nat) (s : Lexer) : Option Lexer :=
  if startsPlain s.inFlow s.cursor.rest then
    s.saveKey.map fun s =>
      let least := match s.indents with
        | [] => 0
        | i :: _ => i + 1
      let read := readPlain s.inFlow least fuel [] false s.cursor
      { s.emit (.plain read.text) with cursor := read.after, allowKey := read.brokeLine }
  else none

def readToken (fuel : Nat) (s : Lexer) : Option Lexer :=
  let c := s.cursor
  match c.rest with
  | [] => none
  | ch :: rest =>
    if c.column == 0 && startsMarker c.rest then
      s.readMarker (if ch == '-' then .documentStart else .documentEnd)
    else if ch == '[' then s.openFlow .flowSequenceStart
    else if ch == '\x7b' then s.openFlow .flowMappingStart
    else if ch == ']' then s.closeFlow .flowSequenceEnd
    else if ch == '\x7d' then s.closeFlow .flowMappingEnd
    else if ch == ',' then s.readComma
    else if ch == '-' && endsWord rest then s.readDash
    else if ch == '?' && (s.inFlow || endsWord rest) then s.readKeyMark
    else if ch == ':' && (s.inFlow || endsWord rest) then s.readColon
    else if ch == '\'' || ch == '"' then s.readQuotedToken fuel
    else s.readPlainToken fuel

def prepare (fuel : Nat) (s : Lexer) : Option Lexer :=
  let (passed, c) := s.cursor.skipGap fuel false
  let s := { s with cursor := c, allowKey := s.allowKey || (passed && !s.inFlow) }
  s.dropStale

def run (fuel : Nat) : Nat → Lexer → Option (List Token)
  | 0, _ => none
  | left + 1, s =>
    match s.prepare fuel with
    | none => none
    | some s =>
      if s.cursor.rest.isEmpty then s.closeAll.dropKey.map fun s => s.tokens.reverse
      else
        match s.unindent.readToken fuel with
        | none => none
        | some s => run fuel left s

end Lexer

/-- The tokens of a text; nothing when it is broken. -/
def tokens? (cs : List Char) : Option (List Token) :=
  let fuel := cs.length + 2
  let start : Cursor := { rest := cs }
  let start := if cs.head? == some '\uFEFF' then start.next else start
  Lexer.run fuel fuel { cursor := start }

end ExprRegistry.Yaml
