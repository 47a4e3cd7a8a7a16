import ExprRegistry.Json.Basic
import ExprRegistry.Text.Blank
import ExprRegistry.Text.DecimalDigit

/-!
Values of plain scalars in YAML 1.1. A scalar without quotes is null, a truth value, an integer or a double
when it is spelled like one, and a text otherwise. Integers have a decimal, an octal, a hexadecimal, a
binary and a base-sixty spelling; a double needs a point, and its exponent a sign. Points in time are texts
here.
-/

namespace ExprRegistry.Yaml

def nullWords : List String := ["", "~", "null", "Null", "NULL"]

def trueWords : List String := ["yes", "Yes", "YES", "true", "True", "TRUE", "on", "On", "ON"]

def falseWords : List String := ["no", "No", "NO", "false", "False", "FALSE", "off", "Off", "OFF"]

/-- A sign, if there is one; true for a minus. -/
def splitSign : List Char → Bool × List Char
  | '-' :: rest => (true, rest)
  | '+' :: rest => (false, rest)
  | cs => (false, cs)

def numberInBase (base : Nat) (cs : List Char) : Nat :=
  cs.foldl (fun n c => base * n + (Text.hexValue? c).getD 0) 0

/-- Whether all characters are digits of a base or underscores, and there is at least one. -/
def areDigits (base : Nat) (cs : List Char) : Bool :=
  !cs.isEmpty && cs.all fun c => c == '_' ||
    match Text.hexValue? c with
    | some d => d < base
    | none => false

def dropUnderscores (cs : List Char) : List Char := cs.filter (· != '_')

def isDecimal (cs : List Char) : Bool :=
  match cs with
  | [] => false
  | c :: _ => '1' ≤ c && c ≤ '9' && areDigits 10 cs

/-- The last parts of a base-sixty numeral: one or two digits, below sixty. -/
def isSixtieth (cs : List Char) : Bool :=
  match cs with
  | [a] => Text.isAsciiDigit a
  | [a, b] => '0' ≤ a && a ≤ '5' && Text.isAsciiDigit b
  | _ => false

def magnitude? (cs : List Char) : Option Nat :=
  match cs with
  | ['0'] => some 0
  | '0' :: 'b' :: rest =>
    if areDigits 2 rest then some (numberInBase 2 (dropUnderscores rest)) else none
  | '0' :: 'x' :: rest =>
    if areDigits 16 rest then some (numberInBase 16 (dropUnderscores rest)) else none
  | '0' :: rest =>
    if areDigits 8 rest then some (numberInBase 8 (dropUnderscores rest)) else none
  | _ =>
    match Text.pieces ':' cs with
    | [digits] => if isDecimal digits then some (numberInBase 10 (dropUnderscores digits)) else none
    | head :: tail =>
      if isDecimal head && tail.all isSixtieth then
        some (tail.foldl (fun n part => 60 * n + numberInBase 10 part)
          (numberInBase 10 (dropUnderscores head)))
      else none
    | [] => none

def integer? (cs : List Char) : Option Int :=
  let (negative, body) := splitSign cs
  (magnitude? body).map fun (n : Nat) => if negative then -(n : Int) else n

def exponent? : List Char → Option Int
  | [] => some 0
  | e :: s :: digits =>
    if (e == 'e' || e == 'E') && !digits.isEmpty && digits.all Text.isAsciiDigit then
      let n : Int := Text.numberOf digits
      if s == '-' then some (-n) else if s == '+' then some n else none
    else none
  | _ => none

/-- The digits around the point of a double, as a number and the count of places after the point, and
what follows them. -/
def pointed (whole rest : List Char) : Nat × Int × List Char :=
  let fraction := rest.takeWhile fun c => Text.isAsciiDigit c || c == '_'
  let places : Int := (dropUnderscores fraction).length
  (Text.numberOf (dropUnderscores (whole ++ fraction)), places, rest.drop fraction.length)

/-- The double that parts in base sixty write, the last one of them with a point. -/
def sixtieths (negative : Bool) (parts : List (List Char)) (last : Double) : Double :=
  let whole := parts.reverse.zipIdx.map fun (part, i) =>
    Double.ofInt (Text.numberOf (dropUnderscores part) * Nat.pow 60 (i + 1))
  let total := (last :: whole).foldl Double.add (Double.ofInt 0)
  if negative then total.neg else total

def double? (cs : List Char) : Option Double :=
  let (negative, body) := splitSign cs
  if [".inf", ".Inf", ".INF"].contains (String.ofList body) then some (Double.infinity negative)
  else if [".nan", ".NaN", ".NAN"].contains (String.ofList cs) then some Double.nan
  else
    match Text.cutAt (· == '.') body with
    | (_, none) => none
    | (whole, some rest) =>
      match Text.pieces ':' whole with
      | first :: second :: more =>
        let middle := (second :: more).dropLast
        let last := (second :: more).getLastD []
        let (digits, places, after) := pointed last rest
        if first.head?.any Text.isAsciiDigit && areDigits 10 first && middle.all isSixtieth &&
            isSixtieth last && after.isEmpty then
          some (sixtieths negative (first :: middle) (Double.ofDecimal false digits (-places)))
        else none
      | _ =>
        let wholeOk := match whole with
          | [] => cs.length == body.length && rest.head?.any Text.isAsciiDigit
          | c :: _ => Text.isAsciiDigit c && areDigits 10 whole
        let (digits, places, after) := pointed whole rest
        if !wholeOk then none
        else
          (exponent? after).map fun exponent => Double.ofDecimal negative digits (exponent - places)

def plainValue (cs : List Char) : Scalar :=
  let s := String.ofList cs
  if nullWords.contains s then .null
  else if trueWords.contains s then .bool true
  else if falseWords.contains s then .bool false
  else
    match integer? cs with
    | some n => .int n
    | none =>
      match double? cs with
      | some x => .float x
      | none => .str s

end ExprRegistry.Yaml
