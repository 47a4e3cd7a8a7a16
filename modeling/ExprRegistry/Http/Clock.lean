import ExprRegistry.Decimal.Double
import ExprRegistry.Json.Unfit

/-!
Clocks that a client waits by. A clock takes a pause or tells how it does not fit. The clock of the system
counts in nanoseconds, in 64 bits with a sign, and does not wait for a time before now.
-/

namespace ExprRegistry.Http

/-- How a clock refuses a pause, if it does. -/
abbrev Clock := Json → Option Unfit

namespace Clock

def nanosInSecond : Nat := Nat.pow 10 9

/-- The first count of nanoseconds that is out of range. -/
def nanosBound : Nat := Nat.pow 2 63

/-- How a whole number of seconds is refused. -/
def systemInt (seconds : Int) : Option Unfit :=
  let nanos := seconds * nanosInSecond
  if nanos < -nanosBound || nanosBound ≤ nanos then some .range
  else if seconds < 0 then some .value
  else none

/-- How a double number of seconds is refused. Its nanoseconds are counted in doubles. -/
def systemDouble (seconds : Double) : Option Unfit :=
  let nanos := seconds.times nanosInSecond
  let bound : Int := nanosBound * Double.unitsInOne
  if seconds.isNaN then some .value
  else if nanos.ltUnits (-bound) || !nanos.ltUnits bound then some .range
  else if seconds.ltUnits 0 then some .value
  else none

def system : Clock := fun pause =>
  match pause.number? with
  | some (.inl seconds) => systemInt seconds
  | some (.inr seconds) => systemDouble seconds
  | none => some .kind

/-- The pause, if a clock takes it. -/
def take (clock : Clock) (pause : Json) : Except Unfit Json :=
  match clock pause with
  | none => .ok pause
  | some how => .error how

end Clock

end ExprRegistry.Http
