import ExprRegistry.Decimal.Double
import ExprRegistry.Text.Basic

/-!
Scalars: the values of documents that hold no other values, and the keys of their objects. Two scalars can
be different and still be the same key: numbers and truth values are the same when they are numerically
equal, so `1`, `1.0` and `true` are one key. Main statement: being the same is an equivalence.
-/

namespace ExprRegistry

/-- A value without parts. -/
inductive Scalar where
  | null
  | bool (b : Bool)
  | int (n : Int)
  | float (x : Double)
  | str (t : Text)
  deriving DecidableEq, Inhabited

instance : Coe String Scalar := ⟨fun s => .str s⟩

namespace Scalar

/-- The scalar that stands for all that are the same as a scalar: an integer where there is one. -/
def representative : Scalar → Scalar
  | .bool b => .int (if b then 1 else 0)
  | .float x =>
    if x.isNaN then .float Double.nan
    else
      match x.integer? with
      | some n => .int n
      | none => .float x
  | k => k

/-- Whether two scalars are the same key. This is coarser than equality of scalars. -/
def same (a b : Scalar) : Bool := decide (a.representative = b.representative)

instance : BEq Scalar := ⟨same⟩

theorem same_iff {a b : Scalar} : same a b = true ↔ a.representative = b.representative :=
  decide_eq_true_iff

instance : EquivBEq Scalar where
  rfl := same_iff.2 rfl
  symm h := same_iff.2 (same_iff.1 h).symm
  trans h k := same_iff.2 ((same_iff.1 h).trans (same_iff.1 k))

/-- The number that a scalar counts as: truth values count as zero and one. -/
def number? : Scalar → Option (Int ⊕ Double)
  | .bool b => some (.inl (if b then 1 else 0))
  | .int n => some (.inl n)
  | .float x => some (.inr x)
  | _ => none

def isText : Scalar → Bool
  | .str _ => true
  | _ => false

/-- Whether a scalar is a whole text. -/
def isString : Scalar → Bool
  | .str (.whole _) => true
  | _ => false

/-- Whether a scalar counts as given: null, false, zero and the empty text do not. -/
def isGiven : Scalar → Bool
  | .null => false
  | .bool b => b
  | .int n => n != 0
  | .float x => !x.isZero
  | .str t => t != ""

/-- Whether a scalar has a text: an integer of too many digits has none. -/
def hasText : Scalar → Bool
  | .int n => n.natAbs < Nat.pow 10 Text.maxDigits
  | _ => true

/-- Whether there are no halves of characters in a scalar. -/
def isWhole : Scalar → Bool
  | .str t => t.isWhole
  | _ => true

end Scalar

end ExprRegistry
