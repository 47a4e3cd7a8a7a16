import ExprRegistry.Text.Basic

/-!
Texts shown inside messages. A shown text stands in single quotes, or in double quotes when it holds a
single quote and no double one; the quote in use, the backslash and everything that has no visible form
is escaped. `printable` is the table behind "visible".
-/

namespace ExprRegistry.Text

/-- The code points without a visible form: controls, format characters, separators other than the
space, private use and noncharacters, as closed ranges. -/
def invisible : List (Nat × Nat) :=
  [(0x0, 0x1F), (0x7F, 0xA0), (0xAD, 0xAD), (0x600, 0x605), (0x61C, 0x61C), (0x6DD, 0x6DD),
   (0x70F, 0x70F), (0x890, 0x891), (0x8E2, 0x8E2), (0x1680, 0x1680), (0x180E, 0x180E),
   (0x2000, 0x200F), (0x2028, 0x202F), (0x205F, 0x206F), (0x3000, 0x3000), (0xE000, 0xF8FF),
   (0xFDD0, 0xFDEF), (0xFEFF, 0xFEFF), (0xFFF0, 0xFFFB), (0xFFFE, 0xFFFF), (0x110BD, 0x110BD),
   (0x110CD, 0x110CD), (0x13430, 0x13438), (0x1BCA0, 0x1BCA3), (0x1D173, 0x1D17A),
   (0xE0000, 0xE00FF), (0xF0000, 0x10FFFF)]

def printable (c : Char) : Bool :=
  !invisible.any fun (low, high) => low ≤ c.toNat && c.toNat ≤ high

def quoteFor (cs : List Char) : Char :=
  if cs.contains '\'' && !cs.contains '"' then '"' else '\''

def showChar (quote c : Char) : List Char :=
  if c == '\\' then ['\\', '\\']
  else if c == quote then ['\\', quote]
  else if c == '\n' then ['\\', 'n']
  else if c == '\r' then ['\\', 'r']
  else if c == '\t' then ['\\', 't']
  else if printable c then [c]
  else if c.toNat < 0x100 then '\\' :: 'x' :: hex 2 c.toNat
  else if c.toNat < 0x10000 then '\\' :: 'u' :: hex 4 c.toNat
  else '\\' :: 'U' :: hex 8 c.toNat

def quoted (s : String) : String :=
  let cs := s.toList
  let quote := quoteFor cs
  String.ofList (quote :: cs.flatMap (showChar quote) ++ [quote])

def showPoint (quote : Char) : Point → List Char
  | .inl c => showChar quote c
  | .inr h => halfEscape h

/-- A text in quotes, its halves escaped. -/
def shown : Text → String
  | .whole s => quoted s
  | t =>
    let quote := quoteFor (t.points.filterMap Sum.getLeft?)
    String.ofList (quote :: t.points.flatMap (showPoint quote) ++ [quote])

end ExprRegistry.Text
