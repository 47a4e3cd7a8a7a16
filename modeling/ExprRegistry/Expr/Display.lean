import ExprRegistry.Expr.Encode
import ExprRegistry.Json.Display

/-!
Terms inside messages: the name of the form, then its parts by name.
-/

namespace ExprRegistry.Expr

/-- Items between round brackets; a single item is followed by a comma. -/
def shownSequence : List String → String
  | [item] => "(" ++ item ++ ",)"
  | items => "(" ++ ", ".intercalate items ++ ")"

mutual

def shown : Expr → String
  | literal v => "Literal(value=" ++ v.shown ++ ")"
  | reference name => "Reference(name=" ++ name.shown ++ ")"
  | vector items => "Vector(items=" ++ shownSequence (shownItems items) ++ ")"
  | application f none => "Application(function=" ++ shown f ++ ", arguments=None)"
  | application f (some a) => "Application(function=" ++ shown f ++ ", arguments=" ++ shown a ++ ")"
  | lambda params body =>
    "Lambda(params=" ++ shownSequence (params.map Json.shown) ++ ", body=" ++ shown body ++ ")"
  | fixpoint inner => "Fixpoint(inner=" ++ shown inner ++ ")"
  | cases e branches =>
    "Match(scrutinee=" ++ shown e ++ ", branches=" ++ shownSequence (shownBranches branches) ++ ")"
  | raw v => v.shown
  | branch pattern result => "Branch(pattern=" ++ pattern.shown ++ ", result=" ++ shown result ++ ")"

def shownItems : List Expr → List String
  | [] => []
  | e :: rest => shown e :: shownItems rest

def shownBranches : List (Json × Expr) → List String
  | [] => []
  | (pattern, e) :: rest =>
    ("Branch(pattern=" ++ pattern.shown ++ ", result=" ++ shown e ++ ")") :: shownBranches rest

end

end ExprRegistry.Expr

/-- A refusal in words; there are none for what does not fit. -/
def ExprRegistry.Misplaced.message? : Misplaced → Option String
  | notExpression term => some ("Not a G-expression: " ++ term.shown)
  | unfit _ => none
