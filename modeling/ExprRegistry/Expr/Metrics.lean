import ExprRegistry.Expr.ReadBack

/-!
Measures of expressions. `complexity` counts the expressions at the child positions of a term, itself
included, and `depth` the longest chain of them; values that are no expressions count nothing.
-/

namespace ExprRegistry

namespace Expr

mutual

def complexity : Expr → Nat
  | literal _ => 1
  | reference _ => 1
  | vector items => 1 + complexityItems items
  | application f none => 1 + complexity f
  | application f (some a) => 1 + (complexity f + complexity a)
  | lambda _ body => 1 + complexity body
  | fixpoint inner => 1 + complexity inner
  | cases e branches => 1 + (complexity e + complexityResults branches)
  | raw _ => 0
  | branch _ _ => 0

def complexityItems : List Expr → Nat
  | [] => 0
  | e :: rest => complexity e + complexityItems rest

def complexityResults : List (Json × Expr) → Nat
  | [] => 0
  | (_, e) :: rest => complexity e + complexityResults rest

end

mutual

def depth : Expr → Nat
  | literal _ => 1
  | reference _ => 1
  | vector items => 1 + depthItems items
  | application f none => 1 + depth f
  | application f (some a) => 1 + max (depth f) (depth a)
  | lambda _ body => 1 + depth body
  | fixpoint inner => 1 + depth inner
  | cases e branches => 1 + max (depth e) (depthResults branches)
  | raw _ => 0
  | branch _ _ => 0

def depthItems : List Expr → Nat
  | [] => 0
  | e :: rest => max (depth e) (depthItems rest)

def depthResults : List (Json × Expr) → Nat
  | [] => 0
  | (_, e) :: rest => max (depth e) (depthResults rest)

end

def childCount : Expr → Except Misplaced Nat
  | literal _ => .ok 0
  | reference _ => .ok 0
  | vector items => .ok items.length
  | application _ none => .ok 1
  | application _ (some _) => .ok 2
  | lambda _ _ => .ok 1
  | fixpoint _ => .ok 1
  | cases _ branches => .ok (1 + branches.length)
  | raw v => .error (.notExpression (raw v))
  | branch pattern result => .error (.notExpression (branch pattern result))

def valueType : Json → String
  | .null => "null"
  | .bool _ => "boolean"
  | .int _ => "number"
  | .float _ => "number"
  | .text _ => "string"
  | .arr _ => "list"
  | .obj _ => "map"

mutual

/-- A summary of an expression. Lambdas are summed up by their parameters and matches by the count of
their branches. -/
def outline : Expr → Except Misplaced Json
  | literal v => .ok (.obj [("type", .str "literal"), ("value_type", .str (valueType v))])
  | reference name => .ok (.obj [("type", .str "reference"), ("name", name)])
  | vector items => do
    let elements ← outlineItems items
    pure (.obj [("type", .str "vector"), ("length", .int items.length), ("elements", .arr elements)])
  | application f none => do
    let f ← outline f
    pure (.obj [("type", .str "application"), ("function", f), ("args", .null)])
  | application f (some a) => do
    let (f, a) ← Misplaced.both (outline f) (outline a)
    pure (.obj [("type", .str "application"), ("function", f), ("args", a)])
  | lambda params _ =>
    .ok (.obj [("type", .str "lambda"), ("arity", .int params.length), ("params", .arr params)])
  | fixpoint inner => do
    let inner ← outline inner
    pure (.obj [("type", .str "fixpoint"), ("expr", inner)])
  | cases e branches => do
    let e ← outline e
    pure (.obj [("type", .str "match"), ("expr", e), ("branches", .int branches.length)])
  | raw v => .error (.notExpression (raw v))
  | branch pattern result => .error (.notExpression (branch pattern result))

def outlineItems : List Expr → Except Misplaced (List Json)
  | [] => .ok []
  | e :: rest => do
    let first := match e with
      | raw v => .ok (.obj [("type", .str "literal"), ("value", v)])
      | branch _ _ => .error (.unfit .kind)
      | _ => outline e
    let (item, items) ← Misplaced.both first (outlineItems rest)
    pure (item :: items)

end

end Expr

/-- What is told about an expression. -/
structure Analysis where
  form : Form
  outline : Json
  complexity : Nat
  depth : Nat
  deriving DecidableEq

namespace Analysis

def ofExpr (e : Expr) : Except TermError Analysis :=
  match e.form?, e.outline with
  | some form, .ok outline => .ok ⟨form, outline, e.complexity, e.depth⟩
  | none, .ok _ => .error (.misplaced (.notExpression e))
  | _, .error m => .error (.misplaced m)

def ofJson (v : Json) : Except TermError Analysis :=
  match Expr.decode v with
  | .error e => .error (.refused e)
  | .ok e => ofExpr e

/-- The analysis of a term: an expression is written and read first, any other value is read. What is read
may be no expression even where the document is not complete. -/
def ofTerm (term : Expr) : Except TermError Analysis :=
  match term with
  | .raw v => ofJson v
  | .branch _ _ => .error (.invalid ⟨[], .notObject⟩)
  | e =>
    match e.encode with
    | .ok v => ofJson v
    | .error m => e.readBack.bind fun _ => .error (.misplaced m)

def toJson (a : Analysis) : Json :=
  .obj [("type", .str a.form.tag), ("structure", a.outline), ("complexity", .int a.complexity),
    ("depth", .int a.depth)]

end Analysis

end ExprRegistry
