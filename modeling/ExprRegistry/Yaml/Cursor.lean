/-!
Places in a text that is read as YAML. Lines end at line feeds, carriage returns, next-line controls and
the line and paragraph separators. A cursor knows its line and column, because both the keys and the
indentation of a document hang on them.
-/

namespace ExprRegistry.Yaml

def isBreak (c : Char) : Bool :=
  c == '\n' || c == '\r' || c.toNat == 0x85 || c.toNat == 0x2028 || c.toNat == 0x2029

def isSpace (c : Char) : Bool := c == ' ' || c == '\t' || isBreak c

/-- The character that a line break stands for: the two separators stand for themselves. -/
def breakChar (c : Char) : Char := if c.toNat == 0x2028 || c.toNat == 0x2029 then c else '\n'

/-- What stands for a line break and the breaks after it, where a scalar goes on after them: a single
plain break is a space, and the first of several is dropped. -/
def foldBreaks : List Char → List Char
  | [] => []
  | ['\n'] => [' ']
  | '\n' :: more => more
  | breaks => breaks

/-- Whether a word ends here: at white space or at the end of the text. -/
def endsWord : List Char → Bool
  | [] => true
  | c :: _ => isSpace c

/-- Whether a line begins with the mark before or after a document. -/
def startsMarker : List Char → Bool
  | '-' :: '-' :: '-' :: rest => endsWord rest
  | '.' :: '.' :: '.' :: rest => endsWord rest
  | _ => false

/-- A place in a text: what is left of it, and how many characters, lines and characters of the line are
before it. -/
structure Cursor where
  rest : List Char
  index : Nat := 0
  line : Nat := 0
  column : Nat := 0

namespace Cursor

/-- The place one character further on. A mark of byte order takes no column. -/
def next (c : Cursor) : Cursor :=
  match c.rest with
  | [] => c
  | ch :: rest =>
    if isBreak ch then ⟨rest, c.index + 1, c.line + 1, 0⟩
    else ⟨rest, c.index + 1, c.line, if ch == '\uFEFF' then c.column else c.column + 1⟩

def advance : Nat → Cursor → Cursor
  | 0, c => c
  | n + 1, c => advance n c.next

/-- The characters up to the first one that does not satisfy `p`, and the place after them. -/
def span (p : Char → Bool) (c : Cursor) : List Char × Cursor :=
  let run := c.rest.takeWhile p
  (run, c.advance run.length)

/-- The place of the next token, after spaces, line breaks and comments, and whether a line break was
passed. -/
def skipGap : Nat → Bool → Cursor → Bool × Cursor
  | 0, passed, c => (passed, c)
  | fuel + 1, passed, c =>
    let c := (c.span (· == ' ')).2
    let c := if c.rest.head? == some '#' then (c.span fun ch => !isBreak ch).2 else c
    match c.rest with
    | b :: _ => if isBreak b then skipGap fuel true c.next else (passed, c)
    | [] => (passed, c)

end Cursor

end ExprRegistry.Yaml
