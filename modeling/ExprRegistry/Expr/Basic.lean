import ExprRegistry.Json.Basic

/-!
Expressions. There are seven forms, each with a tag that marks it in documents. Terms are built without
checks, so a name need not be a text and a value that is no expression may stand where one is expected;
`raw` and `branch` are those values. The checked expressions are the ones that `decode` returns.
-/

namespace ExprRegistry

/-- The forms of expressions. -/
inductive Form where
  | literal
  | reference
  | application
  | vector
  | lambda
  | fixpoint
  | cases
  deriving DecidableEq

namespace Form

def all : List Form := [literal, reference, application, vector, lambda, fixpoint, cases]

def tag : Form → String
  | literal => "lit"
  | reference => "ref"
  | application => "app"
  | vector => "vec"
  | lambda => "lam"
  | fixpoint => "fix"
  | cases => "match"

def ofTag? (tag : String) : Option Form := all.find? fun form => form.tag == tag

def title : Form → String
  | literal => "Literal"
  | reference => "Reference"
  | application => "Application"
  | vector => "Vector"
  | lambda => "Lambda"
  | fixpoint => "Fixpoint"
  | cases => "Match"

def tagList : String := ", ".intercalate (all.map tag)

end Form

/-- A term: an expression of one of the seven forms, a value that is no expression, or a branch outside
of a match. -/
inductive Expr where
  | literal (value : Json)
  | reference (name : Json)
  | vector (items : List Expr)
  | application (function : Expr) (argument : Option Expr)
  | lambda (params : List Json) (body : Expr)
  | fixpoint (inner : Expr)
  | cases (scrutinee : Expr) (branches : List (Json × Expr))
  | raw (value : Json)
  | branch (pattern : Json) (result : Expr)
  deriving Inhabited

namespace Expr

def form? : Expr → Option Form
  | literal _ => some .literal
  | reference _ => some .reference
  | vector _ => some .vector
  | application _ _ => some .application
  | lambda _ _ => some .lambda
  | fixpoint _ => some .fixpoint
  | cases _ _ => some .cases
  | raw _ => none
  | branch _ _ => none

/-- Whether a term is an expression itself; its parts may still be anything. -/
def isExpression (e : Expr) : Bool := e.form?.isSome

/-- Applies a function. A null argument is no argument. -/
def apply (function argument : Expr) : Expr :=
  match argument with
  | raw .null => application function none
  | _ => application function (some argument)

def curry (function : Expr) (arguments : List Expr) : Expr := arguments.foldl apply function

def compose (f g : Expr) : Expr :=
  lambda [.str "x"] (apply f (apply g (reference (.str "x"))))

mutual

def eqb : Expr → Expr → Bool
  | literal a, literal b => decide (a = b)
  | reference a, reference b => decide (a = b)
  | vector a, vector b => eqbItems a b
  | application f none, application g none => eqb f g
  | application f (some a), application g (some b) => eqb f g && eqb a b
  | lambda p a, lambda q b => decide (p = q) && eqb a b
  | fixpoint a, fixpoint b => eqb a b
  | cases a p, cases b q => eqb a b && eqbBranches p q
  | raw a, raw b => decide (a = b)
  | branch p a, branch q b => decide (p = q) && eqb a b
  | _, _ => false

def eqbItems : List Expr → List Expr → Bool
  | [], [] => true
  | a :: as, b :: bs => eqb a b && eqbItems as bs
  | _, _ => false

def eqbBranches : List (Json × Expr) → List (Json × Expr) → Bool
  | [], [] => true
  | (p, a) :: as, (q, b) :: bs => decide (p = q) && eqb a b && eqbBranches as bs
  | _, _ => false

end

mutual

theorem eqb_refl : (a : Expr) → eqb a a = true
  | literal _ => by simp [eqb]
  | reference _ => by simp [eqb]
  | vector items => by simpa [eqb] using eqbItems_refl items
  | application f none => by simpa [eqb] using eqb_refl f
  | application f (some a) => by simp [eqb, eqb_refl f, eqb_refl a]
  | lambda _ body => by simpa [eqb] using eqb_refl body
  | fixpoint inner => by simpa [eqb] using eqb_refl inner
  | cases e branches => by simp [eqb, eqb_refl e, eqbBranches_refl branches]
  | raw _ => by simp [eqb]
  | branch _ result => by simpa [eqb] using eqb_refl result

theorem eqbItems_refl : (a : List Expr) → eqbItems a a = true
  | [] => rfl
  | a :: as => by simp [eqbItems, eqb_refl a, eqbItems_refl as]

theorem eqbBranches_refl : (a : List (Json × Expr)) → eqbBranches a a = true
  | [] => rfl
  | (_, a) :: as => by simp [eqbBranches, eqb_refl a, eqbBranches_refl as]

end

mutual

theorem eq_of_eqb : (a b : Expr) → eqb a b = true → a = b
  | literal _, b, h => by cases b <;> simp_all [eqb]
  | reference _, b, h => by cases b <;> simp_all [eqb]
  | vector items, b, h => by
      cases b with
      | vector others => rw [eq_of_eqbItems items others (by simpa [eqb] using h)]
      | _ => simp [eqb] at h
  | application f none, b, h => by
      cases b with
      | application g b =>
          cases b with
          | none => rw [eq_of_eqb f g (by simpa [eqb] using h)]
          | some _ => simp [eqb] at h
      | _ => simp [eqb] at h
  | application f (some a), b, h => by
      cases b with
      | application g b =>
          cases b with
          | none => simp [eqb] at h
          | some b =>
              simp only [eqb, Bool.and_eq_true] at h
              rw [eq_of_eqb f g h.1, eq_of_eqb a b h.2]
      | _ => simp [eqb] at h
  | lambda _ body, b, h => by
      cases b with
      | lambda q other =>
          simp only [eqb, Bool.and_eq_true, decide_eq_true_eq] at h
          rw [h.1, eq_of_eqb body other h.2]
      | _ => simp [eqb] at h
  | fixpoint inner, b, h => by
      cases b with
      | fixpoint other => rw [eq_of_eqb inner other (by simpa [eqb] using h)]
      | _ => simp [eqb] at h
  | cases e branches, b, h => by
      cases b with
      | cases other others =>
          simp only [eqb, Bool.and_eq_true] at h
          rw [eq_of_eqb e other h.1, eq_of_eqbBranches branches others h.2]
      | _ => simp [eqb] at h
  | raw _, b, h => by cases b <;> simp_all [eqb]
  | branch _ result, b, h => by
      cases b with
      | branch q other =>
          simp only [eqb, Bool.and_eq_true, decide_eq_true_eq] at h
          rw [h.1, eq_of_eqb result other h.2]
      | _ => simp [eqb] at h

theorem eq_of_eqbItems : (a b : List Expr) → eqbItems a b = true → a = b
  | [], b, h => by cases b <;> simp_all [eqbItems]
  | a :: as, b, h => by
      cases b with
      | nil => simp [eqbItems] at h
      | cons b bs =>
          simp only [eqbItems, Bool.and_eq_true] at h
          rw [eq_of_eqb a b h.1, eq_of_eqbItems as bs h.2]

theorem eq_of_eqbBranches : (a b : List (Json × Expr)) → eqbBranches a b = true → a = b
  | [], b, h => by cases b <;> simp_all [eqbBranches]
  | (_, a) :: as, b, h => by
      cases b with
      | nil => simp [eqbBranches] at h
      | cons b bs =>
          obtain ⟨q, b⟩ := b
          simp only [eqbBranches, Bool.and_eq_true, decide_eq_true_eq] at h
          rw [h.1.1, eq_of_eqb a b h.1.2, eq_of_eqbBranches as bs h.2]

end

instance : DecidableEq Expr := fun a b =>
  if h : eqb a b then .isTrue (eq_of_eqb a b h)
  else .isFalse fun e => h (e ▸ eqb_refl a)

end Expr

end ExprRegistry
