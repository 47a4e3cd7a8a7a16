import ExprRegistry.Text.Basic

/-!
White space around a text. `isBlank` is the Unicode white space of this library, the four information
separators included and the zero-width space not. `strip` drops it at both ends and nowhere else.
-/

namespace ExprRegistry.Text

/-- White space: the ASCII blanks, the information separators, the next-line control and the
space, line and paragraph separators of Unicode. -/
def isBlank (c : Char) : Bool :=
  let n := c.toNat
  (0x09 ≤ n && n ≤ 0x0D) || (0x1C ≤ n && n ≤ 0x20) || n == 0x85 || n == 0xA0 || n == 0x1680 ||
    (0x2000 ≤ n && n ≤ 0x200A) || n == 0x2028 || n == 0x2029 || n == 0x202F || n == 0x205F ||
    n == 0x3000

/-- A list without the leading and trailing elements that satisfy `p`. -/
def trimBy {α : Type} (p : α → Bool) (xs : List α) : List α :=
  ((xs.dropWhile p).reverse.dropWhile p).reverse

def strip (s : String) : String := String.ofList (trimBy isBlank s.toList)

/-- Whether a string holds white space only, the empty string included. -/
def isBlankText (s : String) : Bool := s.toList.all isBlank

/-- Whether a text holds white space only. Halves of characters are none. -/
def allBlank : Text → Bool
  | .whole s => isBlankText s
  | .torn _ _ _ => false

def stripped : Text → Text
  | .whole s => strip s
  | t => ofPoints (trimBy (Sum.elim isBlank fun _ => false) t.points)

/-- The text without `c` at its end, however often it stands there. -/
def dropTrailing (c : Char) (s : String) : String :=
  String.ofList ((s.toList.reverse.dropWhile (· == c)).reverse)

/-- Cuts a list of characters at the first one that satisfies `p`, which is dropped. -/
def cutAt (p : Char → Bool) : List Char → List Char × Option (List Char)
  | [] => ([], none)
  | c :: rest =>
    if p c then ([], some rest)
    else
      let (before, after) := cutAt p rest
      (c :: before, after)

/-- Splits at every `c`; a text without `c` is its only piece. -/
def pieces (c : Char) : List Char → List (List Char)
  | [] => [[]]
  | d :: rest =>
    if d == c then [] :: pieces c rest
    else
      match pieces c rest with
      | [] => [[d]]
      | first :: others => (d :: first) :: others

end ExprRegistry.Text
