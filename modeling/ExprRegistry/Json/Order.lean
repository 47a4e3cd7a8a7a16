import ExprRegistry.Json.Unfit

/-!
Sorting by scalars. Texts are in order of code points and numbers, truth values among them, in numeric
order; a list that mixes texts and numbers, or holds null beside anything else, has no order.
-/

namespace ExprRegistry.Scalar

def numberLt : Int ⊕ Double → Int ⊕ Double → Bool
  | .inl m, .inl n => m < n
  | .inl m, .inr y => y.gtUnits (m * Double.unitsInOne)
  | .inr x, .inl n => x.ltUnits (n * Double.unitsInOne)
  | .inr x, .inr y => x.lt y

def le (a b : Scalar) : Bool :=
  match a, b with
  | .str s, .str t => decide (s ≤ t)
  | _, _ =>
    match a.number?, b.number? with
    | some m, some n => !numberLt n m
    | _, _ => true

/-- Whether scalars have an order: they are all texts, or all numbers, or not more than one. -/
def areOrdered (keys : List Scalar) : Bool :=
  keys.all isText || keys.all (fun k => k.number?.isSome) || keys.length ≤ 1

def sortBy {α : Type} (key : α → Scalar) (items : List α) : Except Unfit (List α) :=
  if areOrdered (items.map key) then .ok (items.mergeSort fun a b => le (key a) (key b))
  else .error .kind

end ExprRegistry.Scalar
