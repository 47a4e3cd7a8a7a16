/-!
Binary floating point numbers of 64 bits, kept as their bits. Two numbers are the same value of this
type when their bits agree, so equality is decidable and every operation below is exact arithmetic on
naturals followed by one rounding to the nearest number, ties to the even one.
-/

namespace ExprRegistry

/-- A double in the interchange encoding: a sign, eleven exponent bits and 52 fraction bits. -/
structure Double where
  bits : UInt64
  deriving DecidableEq, Inhabited

namespace Double

def fraction (x : Double) : Nat := x.bits.toNat % Nat.pow 2 52

def exponentField (x : Double) : Nat := x.bits.toNat / Nat.pow 2 52 % Nat.pow 2 11

def isNegative (x : Double) : Bool := Nat.pow 2 63 ≤ x.bits.toNat

def isNaN (x : Double) : Bool := x.exponentField == 2047 && x.fraction != 0

def isInfinite (x : Double) : Bool := x.exponentField == 2047 && x.fraction == 0

def isFinite (x : Double) : Bool := x.exponentField != 2047

/-- The magnitude of a finite double is `significand * 2 ^ (scale - 1074)`. -/
def significand (x : Double) : Nat :=
  if x.exponentField == 0 then x.fraction else x.fraction + Nat.pow 2 52

/-- The exponent of the last significand bit, counted from that of the smallest double. -/
def scale (x : Double) : Nat := x.exponentField - 1

def isZero (x : Double) : Bool := x.isFinite && x.significand == 0

def assemble (negative : Bool) (magnitude : Nat) : Double :=
  ⟨UInt64.ofNat (if negative then Nat.pow 2 63 + magnitude else magnitude)⟩

def infinity (negative : Bool) : Double := assemble negative (2047 * Nat.pow 2 52)

def nan : Double := assemble false (2047 * Nat.pow 2 52 + Nat.pow 2 51)

/-- The quotient rounded to the nearest natural, a half to the even one. -/
def roundDiv (num den : Nat) : Nat :=
  let q := num / den
  let r := num % den
  if 2 * r < den || (2 * r == den && q % 2 == 0) then q else q + 1

/-- The place of the last significand bit for the quotient `num / den`, as a `scale`. -/
def placeOf (num den : Nat) : Nat :=
  -- `num / den` lies in `[2 ^ (a - b - 1), 2 ^ (a - b + 1))`
  let a := num.log2
  let b := den.log2
  let exact : Nat :=
    if b ≤ a then (if den * Nat.pow 2 (a - b) ≤ num then a + 1 else a)
    else (if den ≤ num * Nat.pow 2 (b - a) then a + 1 else a)
  -- the leading bit has exponent `exact - 1 - b`
  exact + 1021 - b

/-- The double nearest to `num / den`, infinite when the quotient is beyond the largest one. -/
def ofQuotient (negative : Bool) (num den : Nat) : Double :=
  if num == 0 then assemble negative 0
  else
    let place := placeOf num den
    -- multiply by `2 ^ 1074` and divide by `2 ^ place`
    let m :=
      if place ≤ 1074 then roundDiv (num * Nat.pow 2 (1074 - place)) den
      else roundDiv num (den * Nat.pow 2 (place - 1074))
    let magnitude := m + place * Nat.pow 2 52
    if 2047 * Nat.pow 2 52 ≤ magnitude then infinity negative else assemble negative magnitude

/-- The double nearest to `digits * 10 ^ exponent`. Numbers far outside the range are decided by their
count of digits alone. -/
def ofDecimal (negative : Bool) (digits : Nat) (exponent : Int) : Double :=
  let count : Int := (toString digits).length
  if digits == 0 then assemble negative 0
  else if count + exponent > 320 then infinity negative
  else if count + exponent < -340 then assemble negative 0
  else if 0 ≤ exponent then ofQuotient negative (digits * Nat.pow 10 exponent.toNat) 1
  else ofQuotient negative digits (Nat.pow 10 (-exponent).toNat)

def ofInt (n : Int) : Double := ofQuotient (n < 0) n.natAbs 1

/-- How many units make one. The unit is `2 ^ -1074`, the smallest positive double. -/
def unitsInOne : Nat := Nat.pow 2 1074

def units (x : Double) : Int :=
  let magnitude : Nat := x.significand * Nat.pow 2 x.scale
  if x.isNegative then -(magnitude : Int) else magnitude

def truncate (x : Double) : Int := x.units.tdiv unitsInOne

/-- The double nearest to a number of units; an exact zero takes the given sign. -/
def ofUnits (negativeZero : Bool) (n : Int) : Double :=
  if n == 0 then assemble negativeZero 0 else ofQuotient (n < 0) n.natAbs unitsInOne

def add (x y : Double) : Double :=
  if x.isNaN || y.isNaN then nan
  else if x.isInfinite then (if y.isInfinite && x.isNegative != y.isNegative then nan else x)
  else if y.isInfinite then y
  else ofUnits (x.isNegative && y.isNegative) (x.units + y.units)

def neg (x : Double) : Double :=
  assemble (!x.isNegative) (x.bits.toNat % Nat.pow 2 63)

def sub (x y : Double) : Double := x.add y.neg

def times (x : Double) (n : Nat) : Double :=
  if x.isFinite then ofUnits x.isNegative (x.units * n) else if n == 0 then nan else x

/-- Whether a double is below an integer number of units; false for what is not a number. -/
def ltUnits (x : Double) (n : Int) : Bool :=
  if x.isNaN then false
  else if x.isInfinite then x.isNegative
  else x.units < n

/-- Whether a double is above an integer number of units; false for what is not a number. -/
def gtUnits (x : Double) (n : Int) : Bool :=
  if x.isNaN then false
  else if x.isInfinite then !x.isNegative
  else n < x.units

/-- Numeric order: the two zeros are equal, and nothing compares with what is not a number. -/
def lt (x y : Double) : Bool :=
  if x.isNaN || y.isNaN then false
  else if y.isInfinite then !y.isNegative && !(x.isInfinite && !x.isNegative)
  else x.ltUnits y.units

def integer? (x : Double) : Option Int :=
  if x.isFinite && x.units % unitsInOne == 0 then some (x.units / unitsInOne) else none

end Double

end ExprRegistry
