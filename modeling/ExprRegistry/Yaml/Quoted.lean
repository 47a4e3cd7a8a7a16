import ExprRegistry.Json.Reader
import ExprRegistry.Yaml.Cursor

/-!
Scalars in quotes. Both kinds of quotes may hold line breaks, which are folded together with the blanks
around them; double quotes hold escapes, and inside single ones a quote is written twice.
-/

namespace ExprRegistry.Yaml

def escapeWidth? : Char → Option Nat
  | 'x' => some 2
  | 'u' => some 4
  | 'U' => some 8
  | _ => none

def escape? (c : Char) : Option Char :=
  match c with
  | '0' => some '\x00'
  | 'a' => some '\x07'
  | 'v' => some '\x0b'
  | 'e' => some '\x1b'
  | ' ' => some ' '
  | '\t' => some '\t'
  | 'N' => some '\u0085'
  | '_' => some '\u00a0'
  | 'L' => some '\u2028'
  | 'P' => some '\u2029'
  | _ => Json.escape? c

/-- The number that the first `width` characters write in hexadecimal digits. -/
def hexCode? (width : Nat) (cs : List Char) : Option Nat :=
  let digits := cs.take width
  if digits.length == width then
    digits.foldlM (fun n c => (Text.hexValue? c).map fun d => 16 * n + d) 0
  else none

/-- The line breaks from here on, with the blanks between them left out, and the place after them. A mark
of a document must not stand on these lines. -/
def readBreaks : Nat → Cursor → Option (List Char × Cursor)
  | 0, _ => none
  | fuel + 1, c =>
    if c.column == 0 && startsMarker c.rest then none
    else
      let c := (c.span fun ch => ch == ' ' || ch == '\t').2
      match c.rest with
      | b :: _ =>
        if isBreak b then
          (readBreaks fuel c.next).map fun (breaks, c) => (breakChar b :: breaks, c)
        else some ([], c)
      | [] => some ([], c)

/-- The blanks from here on as they count inside quotes, and the place after them. -/
def readBlanks (fuel : Nat) (c : Cursor) : Option (List Char × Cursor) :=
  let (blanks, c) := c.span fun ch => ch == ' ' || ch == '\t'
  match c.rest with
  | [] => none
  | b :: _ =>
    if isBreak b then
      (readBreaks fuel c.next).map fun (breaks, c) => (foldBreaks (breakChar b :: breaks), c)
    else some (blanks, c)

/-- The point or the folded lines that an escape stands for; the cursor is after the backslash. Escaped surrogates
are halves of characters, also where they are a pair. -/
def readEscape (fuel : Nat) (c : Cursor) : Option (List Text.Point × Cursor) :=
  match c.rest with
  | [] => none
  | d :: rest =>
    match escapeWidth? d with
    | some width =>
      (hexCode? width rest).bind fun code =>
        if code < 0x110000 then some ([Text.pointOf code], c.advance (width + 1)) else none
    | none =>
      if isBreak d then (readBreaks fuel c.next).map fun (breaks, c) => (breaks.map .inl, c)
      else (escape? d).map fun ch => ([.inl ch], c.next)

/-- The rest of a scalar in quotes of one kind, and the place after its closing quote. -/
def readQuotedRest (quote : Char) : Nat → Cursor → Option (List Text.Point × Cursor)
  | 0, _ => none
  | fuel + 1, c =>
    let go (r : Option (List Text.Point × Cursor)) : Option (List Text.Point × Cursor) :=
      r.bind fun (read, c) => (readQuotedRest quote fuel c).map fun (more, c) => (read ++ more, c)
    match c.rest with
    | [] => none
    | ch :: rest =>
      if ch == quote then
        if quote == '\'' && rest.head? == some '\'' then go (some ([.inl '\''], c.advance 2))
        else some ([], c.next)
      else if quote == '"' && ch == '\\' then go (readEscape fuel c.next)
      else if isSpace ch then go ((readBlanks fuel c).map fun (blanks, c) => (blanks.map .inl, c))
      else go (some ([.inl ch], c.next))

/-- The scalar in quotes that begins here, and the place after it. -/
def readQuoted (fuel : Nat) (c : Cursor) : Option (Text × Cursor) :=
  match c.rest with
  | quote :: _ => (readQuotedRest quote fuel c.next).map fun (ps, c) => (.ofPoints ps, c)
  | [] => none

end ExprRegistry.Yaml
