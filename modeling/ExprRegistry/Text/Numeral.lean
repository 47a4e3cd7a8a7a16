import ExprRegistry.Decimal.Double
import ExprRegistry.Text.Blank
import ExprRegistry.Text.DecimalDigit

/-!
Numbers written by people: in settings, in the environment and on the command line. Blanks around the
numeral are dropped, digits of every script count, and single underscores may stand between digits.
-/

namespace ExprRegistry.Text

/-- The blanks around a numeral: white space other than the information separators. -/
def isNumeralBlank (c : Char) : Bool := isBlank c && !(0x1C ≤ c.toNat && c.toNat ≤ 0x1F)

def startsWithDigit : List Char → Bool
  | [] => false
  | c :: _ => isDigit c

/-- The digits at the front, with single underscores between them left out. The flag tells whether a
digit stands right before. -/
def digitsAfter (digitBefore : Bool) : List Char → List Char × List Char
  | [] => ([], [])
  | c :: rest =>
    if isDigit c then
      let (more, after) := digitsAfter true rest
      (c :: more, after)
    else if digitBefore && c == '_' && startsWithDigit rest then digitsAfter false rest
    else ([], c :: rest)

def digitRun (cs : List Char) : List Char × List Char := digitsAfter false cs

/-- A sign, if there is one; true for a minus. -/
def signPart : List Char → Bool × List Char
  | '-' :: rest => (true, rest)
  | '+' :: rest => (false, rest)
  | cs => (false, cs)

def integer? (s : String) : Option Int :=
  let (negative, body) := signPart (trimBy isNumeralBlank s.toList)
  match digitRun body with
  | ([], _) => none
  | (_, _ :: _) => none
  | (digits, []) =>
    if maxDigits < digits.length then none
    else
      let n : Int := numberOf digits
      some (if negative then -n else n)

/-- The exponent at the end of a decimal numeral: absent, or a sign and digits up to the end. -/
def exponentEnd? : List Char → Option Int
  | [] => some 0
  | e :: rest =>
    if e == 'e' || e == 'E' then
      let (negative, body) := signPart rest
      match digitRun body with
      | (d :: ds, []) =>
        let n : Int := numberOf (d :: ds)
        some (if negative then -n else n)
      | _ => none
    else none

/-- The double that a text writes: a decimal numeral with an optional exponent, or a word for infinity
or for what is not a number in any case. -/
def double? (s : String) : Option Double :=
  let (negative, body) := signPart (trimBy isNumeralBlank s.toList)
  let word := String.ofList (body.map lowerAscii)
  if word == "inf" || word == "infinity" then some (Double.infinity negative)
  else if word == "nan" then some Double.nan
  else
    let (digits, rest) := digitRun body
    let (fraction, rest) := match rest with
      | '.' :: more => digitRun more
      | _ => ([], rest)
    if digits.isEmpty && fraction.isEmpty then none
    else
      (exponentEnd? rest).map fun exponent =>
        let places : Int := fraction.length
        Double.ofDecimal negative (numberOf (digits ++ fraction)) (exponent - places)

end ExprRegistry.Text
