import ExprRegistry.Decimal.Double

/-!
The fewest decimal digits that read back as a given double. For one digit, two digits and so on up to
seventeen, the two neighbours of the value on that decimal grid are tried: the first grid with a
neighbour that rounds to the value wins, and of two such neighbours the nearer, a tie going to the even.
-/

namespace ExprRegistry.Decimal

/-- `digits * 10 ^ exponent`. -/
structure Scientific where
  digits : Nat
  exponent : Int
  deriving DecidableEq, Inhabited

/-- A positive value `size * 2 ^ place` with the reals that round to it, all in units of
`2 ^ (place - 2)`; the ends belong to the interval when `closed` holds. -/
structure Neighbourhood where
  low : Nat
  middle : Nat
  high : Nat
  closed : Bool
  unit : Nat

/-- The reals that round to a positive finite double. Below a power of two the next double is nearer. -/
def neighbourhood (x : Double) : Neighbourhood :=
  let m := x.significand
  { low := if m == Nat.pow 2 52 && x.scale != 0 then 4 * m - 1 else 4 * m - 2
    middle := 4 * m
    high := 4 * m + 2
    closed := m % 2 == 0
    unit := x.scale }

def Neighbourhood.compareDecimal (n : Neighbourhood) (a : Nat) (e : Int) (b : Nat) : Ordering :=
  let left := a * Nat.pow 10 e.toNat * Nat.pow 2 1076
  let right := b * Nat.pow 2 n.unit * Nat.pow 10 (-e).toNat
  compare left right

def Neighbourhood.holds (n : Neighbourhood) (a : Nat) (e : Int) : Bool :=
  let below := n.compareDecimal a e n.low
  let above := n.compareDecimal a e n.high
  if n.closed then below != .lt && above != .gt else below == .gt && above == .lt

def Neighbourhood.leading (n : Neighbourhood) : Int :=
  let bits : Int := (n.middle.log2 : Int) + n.unit - 1076
  let guess := bits * 30103 / 100000
  if n.compareDecimal 1 (guess + 1) n.middle != .gt then guess + 1
  else if n.compareDecimal 1 guess n.middle == .gt then guess - 1
  else guess

def Neighbourhood.floorAt (n : Neighbourhood) (e : Int) : Nat :=
  n.middle * Nat.pow 2 n.unit * Nat.pow 10 (-e).toNat / (Nat.pow 10 e.toNat * Nat.pow 2 1076)

/-- The better of the two neighbours on the grid `10 ^ e`, if one rounds to the value. -/
def Neighbourhood.onGrid (n : Neighbourhood) (e : Int) : Option Scientific :=
  let a := n.floorAt e
  match n.holds a e, n.holds (a + 1) e with
  | false, false => none
  | true, false => some ⟨a, e⟩
  | false, true => some ⟨a + 1, e⟩
  | true, true =>
    -- twice the value against the sum of the two neighbours
    match n.compareDecimal (2 * a + 1) e (2 * n.middle) with
    | .gt => some ⟨a, e⟩
    | .lt => some ⟨a + 1, e⟩
    | .eq => some (if a % 2 == 0 then ⟨a, e⟩ else ⟨a + 1, e⟩)

/-- The fewest digits that read back as the magnitude of a finite, nonzero double. -/
def shortest (x : Double) : Scientific :=
  let n := neighbourhood x
  let top := n.leading
  match (List.range 17).findSome? fun (k : Nat) => n.onGrid (top - k) with
  | some s => s
  | none => ⟨n.floorAt (top - 16), top - 16⟩

end ExprRegistry.Decimal
