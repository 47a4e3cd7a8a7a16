import ExprRegistry.Expr.Basic

/-!
Sample expressions, one or two for each form.
-/

namespace ExprRegistry

/-- An expression that is shown as an example. -/
structure Sample where
  name : String
  description : String
  expression : Expr

namespace Sample

def number (n : Int) : Expr := .literal (.int n)

def named (name : String) : Expr := .reference (.str name)

def function (params : List String) (body : Expr) : Expr := .lambda (params.map .str) body

def all : List Sample :=
  [⟨"Literal Number", "A simple number literal", number 42⟩,
   ⟨"Literal String", "A string literal", .literal (.str "hello")⟩,
   ⟨"Variable Reference", "Reference to a variable named 'x'", named "x"⟩,
   ⟨"Vector", "A vector containing three numbers", .vector [number 1, number 2, number 3]⟩,
   ⟨"Addition Application", "Apply add to arguments [2, 3]",
    .apply (named "add") (.vector [number 2, number 3])⟩,
   ⟨"Identity Function", "Lambda returning its argument", function ["x"] (named "x")⟩,
   ⟨"Add Function", "Lambda adding two numbers",
    function ["x", "y"] (.apply (named "add") (.vector [named "x", named "y"]))⟩,
   ⟨"Function Application", "Apply the identity function to 42",
    .apply (function ["x"] (named "x")) (number 42)⟩,
   ⟨"Nested Application", "Nested function application",
    .apply (function ["f", "x"] (.apply (named "f") (named "x")))
      (.vector [function ["y"] (.apply (named "add") (.vector [named "y", number 1])), number 5])⟩,
   ⟨"Y Combinator", "Fixed-point combinator for recursion",
    .fixpoint (function ["f"] (function ["x"]
      (.apply (named "f") (.apply (named "f") (named "x")))))⟩,
   ⟨"Pattern Match", "Match on a boolean with a catch-all branch",
    .cases (named "flag?")
      [(.obj [("g", .str "lit"), ("v", .bool true)], .literal (.str "yes")),
       (.str "else", .literal (.str "no"))]⟩]

end Sample

end ExprRegistry
