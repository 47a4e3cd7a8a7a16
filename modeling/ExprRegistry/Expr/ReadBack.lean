import ExprRegistry.Expr.Decode
import ExprRegistry.Expr.Encode

/-!
Writing a term and reading it back. A branch among the items of a vector is no value of a document, yet it
is neither written nor read: it would come back as it is. So null stands for it on the way.
-/

namespace ExprRegistry

/-- Why a term is not read back: it has no document, or its document is none of an expression. -/
inductive TermError where
  | invalid (e : Invalid)
  | misplaced (e : Misplaced)
  /-- What is wrong with the document cannot be told. -/
  | unfit (how : Unfit)

/-- The error of a document that is refused. -/
def TermError.refused (e : Invalid) : TermError := if e.fault.hasMessage then .invalid e else .unfit .value

theorem TermError.refused_of_told {e : Invalid} (told : e.fault.hasMessage = true) : refused e = .invalid e :=
  if_pos told

theorem TermError.refused_of_silent {e : Invalid} (silent : e.fault.hasMessage = false) :
    refused e = .unfit .value := if_neg (ne_true_of_eq_false silent)

namespace Expr

mutual

/-- A term with null for every branch among the items of its vectors. -/
def blanked : Expr → Expr
  | vector items => vector (blankedItems items)
  | application f none => application (blanked f) none
  | application f (some a) => application (blanked f) (some (blanked a))
  | lambda params body => lambda params (blanked body)
  | fixpoint inner => fixpoint (blanked inner)
  | cases e branches => cases (blanked e) (blankedResults branches)
  | e => e

def blankedItems : List Expr → List Expr
  | [] => []
  | branch _ _ :: rest => raw .null :: blankedItems rest
  | e :: rest => blanked e :: blankedItems rest

/-- The branches of a match with null for every branch among the items of a vector. -/
def blankedResults : List (Json × Expr) → List (Json × Expr)
  | [] => []
  | (pattern, e) :: rest => (pattern, blanked e) :: blankedResults rest

end

def readBack (e : Expr) : Except TermError Expr :=
  match e.blanked.encode with
  | .error m => .error (.misplaced m)
  | .ok v => (decode v).mapError .refused

/-- Whether a term comes back as it is when it is written and read. -/
def isReadBack (e : Expr) : Except TermError Bool := e.readBack.map fun d => decide (d = e.blanked)

end Expr

end ExprRegistry
