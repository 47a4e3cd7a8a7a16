import ExprRegistry.Expr.Encode
import ExprRegistry.Json.Display

/-!
Expressions as text: in call notation, or as a document on one line or on many.
-/

namespace ExprRegistry

/-- The ways of writing an expression. -/
inductive Style where
  | pretty
  | compact
  | indented
  deriving DecidableEq

/-- The style that a value names; whatever names none is the indented one. -/
def Style.ofJson : Json → Style
  | .str "pretty" => pretty
  | .str "compact" => compact
  | _ => indented

namespace Expr

def paramTexts : List Json → Except Misplaced (List String)
  | [] => .ok []
  | .str name :: rest => (paramTexts rest).map (name :: ·)
  | .text _ :: _ => .error (.unfit .encoding)
  | _ :: _ => .error (.unfit .kind)

/-- A name in call notation, which only a whole text can be part of. -/
def nameText (name : Json) : Except Misplaced String :=
  match name.toText with
  | .error how => .error (.unfit how)
  | .ok (.whole s) => .ok s
  | .ok _ => .error (.unfit .encoding)

/-- A value on one line, if it has a text. -/
def written (v : Json) : Except Misplaced String := (v.dump .spaced).mapError .unfit

mutual

def pretty : Expr → Except Misplaced String
  | literal v => do
    let text ← written v
    pure ("lit(" ++ text ++ ")")
  | reference name => do
    let text ← nameText name
    pure ("ref(" ++ text ++ ")")
  | vector items => do
    let items ← prettyItems items
    pure ("vec([" ++ ", ".intercalate items ++ "])")
  | application f none => do
    let f ← pretty f
    pure ("app(" ++ f ++ ")")
  | application f (some a) => do
    let f ← pretty f
    let a ← pretty a
    pure ("app(" ++ f ++ ", " ++ a ++ ")")
  | lambda params body => do
    let names ← paramTexts params
    let body ← pretty body
    pure ("lam([" ++ ", ".intercalate names ++ "], " ++ body ++ ")")
  | fixpoint inner => do
    let inner ← pretty inner
    pure ("fix(" ++ inner ++ ")")
  | cases e branches => do
    let e ← pretty e
    pure ("match(" ++ e ++ ", " ++ toString branches.length ++ " branches)")
  | raw v => .error (.notExpression (raw v))
  | branch pattern result => .error (.notExpression (branch pattern result))

/-- The items of a vector in call notation; values that are no expressions are written as documents. -/
def prettyItems : List Expr → Except Misplaced (List String)
  | [] => .ok []
  | e :: rest => do
    let item ← match e with
      | raw v => written v
      | branch _ _ => .error (.unfit .kind)
      | _ => pretty e
    let items ← prettyItems rest
    pure (item :: items)

end

/-- The document of an expression as text. -/
def document (layout : Json.Layout) (e : Expr) : Except Misplaced String := do
  let v ← e.encode
  (v.dump layout).mapError .unfit

def format (style : Style) (e : Expr) : Except Misplaced String :=
  match style with
  | .pretty => e.pretty
  | .compact => e.document .compact
  | .indented => e.document .indented

end Expr

end ExprRegistry
