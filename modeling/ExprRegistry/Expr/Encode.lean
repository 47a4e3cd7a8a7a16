import ExprRegistry.Digest.Sha256
import ExprRegistry.Expr.Basic
import ExprRegistry.Json.Writer

/-!
Expressions as documents. An expression of each form becomes an object that holds its tag and a payload.
The items of a vector that are no expressions stay as they are; a value in any other place where an
expression is expected is refused, and so is a branch among the items, but only when nothing else is.
-/

namespace ExprRegistry

/-- Why an operation on a term is refused. -/
inductive Misplaced where
  | notExpression (term : Expr)
  /-- Something stands where a text or a document value is expected, or a document has no text. -/
  | unfit (how : Unfit)

/-- Two parts of a document. A term that stands where an expression is expected counts before all else,
and the first such term before the second. -/
def Misplaced.both {α β : Type} : Except Misplaced α → Except Misplaced β → Except Misplaced (α × β)
  | .ok a, .ok b => .ok (a, b)
  | .ok _, .error m => .error m
  | .error (.unfit _), .error m => .error m
  | .error m, _ => .error m

theorem Misplaced.both_eq_ok_iff {α β : Type} {x : Except Misplaced α} {y : Except Misplaced β}
    {p : α × β} : both x y = .ok p ↔ x = .ok p.1 ∧ y = .ok p.2 := by
  cases x with
  | ok a => cases y <;> simp [both, Prod.ext_iff]
  | error m => cases m <;> cases y <;> simp [both]

namespace Expr

def tagged (form : Form) (payload : Json) : Json := .obj [("g", .str form.tag), ("v", payload)]

mutual

def encode : Expr → Except Misplaced Json
  | literal v => .ok (tagged .literal v)
  | reference name => .ok (tagged .reference name)
  | vector items => do
    let payload ← encodeItems items
    pure (tagged .vector (.arr payload))
  | application f none => do
    let f ← encode f
    pure (tagged .application (.obj [("fn", f)]))
  | application f (some a) => do
    let (f, a) ← Misplaced.both (encode f) (encode a)
    pure (tagged .application (.obj [("fn", f), ("args", a)]))
  | lambda params body => do
    let body ← encode body
    pure (tagged .lambda (.obj [("params", .arr params), ("body", body)]))
  | fixpoint inner => do
    let payload ← encode inner
    pure (tagged .fixpoint payload)
  | cases e branches => do
    let (e, branches) ← Misplaced.both (encode e) (encodeBranches branches)
    pure (tagged .cases (.obj [("expr", e), ("branches", .arr branches)]))
  | raw v => .error (.notExpression (raw v))
  | branch pattern result => .error (.notExpression (branch pattern result))

def encodeItems : List Expr → Except Misplaced (List Json)
  | [] => .ok []
  | e :: rest => do
    let first := match e with
      | raw v => .ok v
      | branch _ _ => .error (.unfit .kind)
      | _ => encode e
    let (item, items) ← Misplaced.both first (encodeItems rest)
    pure (item :: items)

def encodeBranches : List (Json × Expr) → Except Misplaced (List Json)
  | [] => .ok []
  | (pattern, e) :: rest => do
    let (result, branches) ← Misplaced.both (encode e) (encodeBranches rest)
    pure (.obj [("pattern", pattern), ("result", result)] :: branches)

end

end Expr

/-- The digest of a document, the same for every order of its keys. There is none where the keys of an
object have no order, or where the document has no text. -/
def Json.checksum (v : Json) : Except Unfit String :=
  v.canonicalText.map fun text => Sha256.hexDigest text.toUTF8.toList

/-- The digest of the document of an expression; a value that is no expression is taken as it is. -/
def Expr.checksum : Expr → Except Misplaced String
  | .raw v => v.checksum.mapError .unfit
  | .branch _ _ => .error (.unfit .kind)
  | e =>
    match e.encode with
    | .error m => .error m
    | .ok v => v.checksum.mapError .unfit

end ExprRegistry
