import ExprRegistry.Yaml.Cursor

/-!
Plain scalars: those without quotes. They end before a colon that ends a word, before a comment and, in a
flow collection, before its marks; they may go on over lines that are indented far enough.
-/

namespace ExprRegistry.Yaml

def startsPlain (inFlow : Bool) : List Char → Bool
  | [] => false
  | c :: rest =>
    if "-?:,[]\x7b\x7d#&*!|>'\"%@\x60".toList.contains c || isSpace c then
      !endsWord rest && (c == '-' || (!inFlow && (c == '?' || c == ':')))
    else true

/-- Whether a plain scalar goes on with these characters, blanks apart. -/
def continuesPlain (inFlow : Bool) : List Char → Bool
  | [] => false
  | c :: rest =>
    if isSpace c then false
    else if c == ':' then
      !endsWord rest && !(inFlow && rest.head?.any fun d => ",[]\x7b\x7d".toList.contains d)
    else !(inFlow && ",?[]\x7b\x7d".toList.contains c)

/-- The characters of a plain scalar up to the next blank or its end. -/
def plainRun (inFlow : Bool) : List Char → List Char
  | [] => []
  | c :: rest => if continuesPlain inFlow (c :: rest) then c :: plainRun inFlow rest else []

/-- The line breaks from here on, with the spaces between them left out, and the place after them; nothing
when a mark of a document stands on one of the lines. -/
def plainBreaks : Nat → Cursor → Option (List Char) × Cursor
  | 0, c => (none, c)
  | fuel + 1, c =>
    if c.column == 0 && startsMarker c.rest then (none, c)
    else
      let c := (c.span (· == ' ')).2
      match c.rest with
      | b :: _ =>
        if isBreak b then
          let (more, c) := plainBreaks fuel c.next
          (more.map (breakChar b :: ·), c)
        else (some [], c)
      | [] => (some [], c)

/-- What stands between two parts of a plain scalar: its characters, whether a line ended in it, and the
place after it. -/
structure PlainGap where
  between : List Char
  brokeLine : Bool
  after : Cursor

/-- The gap after a part of a plain scalar. Without characters in it the scalar does not go on. -/
def plainGap (fuel : Nat) (c : Cursor) : PlainGap :=
  let (spaces, c) := c.span (· == ' ')
  match c.rest with
  | b :: _ =>
    if isBreak b then
      let (breaks, after) := plainBreaks fuel c.next
      ⟨(breaks.map fun more => foldBreaks (breakChar b :: more)).getD [], true, after⟩
    else ⟨spaces, false, c⟩
  | [] => ⟨spaces, false, c⟩

/-- A plain scalar: its text, whether the text before the cursor ended a line, and the place after it. -/
structure PlainRead where
  text : List Char
  brokeLine : Bool
  after : Cursor

/-- Reads on in a plain scalar whose later lines are indented at least so far; `between` stands before the
part that begins here. -/
def readPlain (inFlow : Bool) (least : Nat) : Nat → List Char → Bool → Cursor → PlainRead
  | 0, _, broke, c => ⟨[], broke, c⟩
  | fuel + 1, between, broke, c =>
    match (if c.rest.head? == some '#' then [] else plainRun inFlow c.rest) with
    | [] => ⟨[], broke, c⟩
    | run =>
      let gap := plainGap fuel (c.advance run.length)
      if gap.between.isEmpty || (!inFlow && gap.after.column < least) then
        ⟨between ++ run, gap.brokeLine, gap.after⟩
      else
        let more := readPlain inFlow least fuel gap.between gap.brokeLine gap.after
        { more with text := between ++ run ++ more.text }

end ExprRegistry.Yaml
