import ExprRegistry.Proofs.Expr.Reading

/-!
Well-formed terms: those that are expressions with all their parts. Main statement: whatever is read is
well-formed.
-/

namespace ExprRegistry

theorem Json.isTagged_eq_false_iff {v : Json} :
    v.isTagged = false ↔ ∀ parts, v = .obj parts → field? parts "g" = none := by
  cases v <;> simp [isTagged, hasField]

namespace Expr

/-- Induction on terms. The items of a vector and the results of branches are parts like any other. -/
@[elab_as_elim]
theorem induct {motive : Expr → Prop} (literal : ∀ v, motive (.literal v))
    (reference : ∀ name, motive (.reference name))
    (vector : ∀ items, (∀ e ∈ items, motive e) → motive (.vector items))
    (application : ∀ f argument, motive f → (∀ a, argument = some a → motive a) →
      motive (.application f argument))
    (lambda : ∀ params body, motive body → motive (.lambda params body))
    (fixpoint : ∀ inner, motive inner → motive (.fixpoint inner))
    (cases : ∀ e branches, motive e → (∀ b ∈ branches, motive b.2) → motive (.cases e branches))
    (raw : ∀ v, motive (.raw v)) (branch : ∀ pattern result, motive (.branch pattern result))
    (e : Expr) : motive e := by
  have part (f : Expr) (_ : sizeOf f < sizeOf e) : motive f :=
    induct literal reference vector application lambda fixpoint cases raw branch f
  cases e with
  | literal v => exact literal v
  | reference name => exact reference name
  | vector items =>
      refine vector items fun e member => part e ?_
      have smaller := List.sizeOf_lt_of_mem member
      rw [Expr.vector.sizeOf_spec]
      omega
  | application f argument =>
      refine application f argument (part f ?_) ?_
      · rw [Expr.application.sizeOf_spec]
        omega
      · rintro a rfl
        refine part a ?_
        rw [Expr.application.sizeOf_spec, Option.some.sizeOf_spec]
        omega
  | lambda params body =>
      refine lambda params body (part body ?_)
      rw [Expr.lambda.sizeOf_spec]
      omega
  | fixpoint inner =>
      refine fixpoint inner (part inner ?_)
      rw [Expr.fixpoint.sizeOf_spec]
      omega
  | cases e branches =>
      refine cases e branches (part e ?_) fun b member => part b.2 ?_
      · rw [Expr.cases.sizeOf_spec]
        omega
      · have smaller := List.sizeOf_lt_of_mem member
        rw [Expr.cases.sizeOf_spec]
        rw [Prod.mk.sizeOf_spec] at smaller
        omega
  | raw v => exact raw v
  | branch pattern result => exact branch pattern result
termination_by sizeOf e

theorem isExpression_cases (e : Expr) :
    e.isExpression = true ∨ (∃ v, e = raw v) ∨ ∃ pattern result, e = branch pattern result := by
  cases e <;> simp [isExpression, form?]

/-- Terms that are expressions with all their parts. Among the items of a vector anything else may stand
that is no object with a tag; a branch is no such object. -/
inductive WellFormed : Expr → Prop
  | literal {v} : (∀ parts, v ≠ .obj parts) → WellFormed (literal v)
  | reference {name} : IsReference name → WellFormed (reference (.str name))
  | vector {items} : (∀ e ∈ items, e.isExpression = true → WellFormed e) →
      (∀ parts, raw (.obj parts) ∈ items → Json.field? parts "g" = none) → WellFormed (vector items)
  | application {f argument} : WellFormed f → (∀ a, argument = some a → WellFormed a) →
      WellFormed (application f argument)
  | lambda {params body} : (∀ p ∈ params, ∃ name, p = .str name ∧ IsParameter name) →
      WellFormed body → WellFormed (lambda params body)
  | fixpoint {inner} : WellFormed inner → WellFormed (fixpoint inner)
  | cases {e branches} : WellFormed e → (∀ b ∈ branches, b.1.IsPattern) →
      (∀ b ∈ branches, WellFormed b.2) → WellFormed (cases e branches)

variable {R : Json → Expr → Prop} {v : Json} {e : Expr}

theorem ReadingItem.wellFormed (h : ReadingItem R v e) (parts : ∀ {w f}, R w f → f.WellFormed)
    (expression : e.isExpression = true) : e.WellFormed := by
  cases h with
  | expression _ read => exact parts read
  | value _ => cases expression

theorem ReadingItem.untagged {w : Json} (h : ReadingItem R v (raw w))
    (parts : ∀ {w f}, R w f → f.WellFormed) : w.isTagged = false := by
  cases h with
  | expression _ read => cases parts read
  | value untagged => exact untagged

/-- What is read at one level is well-formed when its parts are. -/
theorem Reading.wellFormed (h : Reading R v e) (parts : ∀ {w f}, R w f → f.WellFormed) :
    e.WellFormed := by
  cases h with
  | literal carries notObject => exact .literal notObject
  | reference carries named => exact .reference named
  | vector carries items =>
      have read := exists_of_forall₂ items.flip
      refine .vector (fun f member expression => ?_) fun fields member => ?_
      · obtain ⟨w, item⟩ := read f member
        exact ReadingItem.wellFormed item parts expression
      · obtain ⟨w, item⟩ := read _ member
        exact Json.isTagged_eq_false_iff.mp (ReadingItem.untagged item parts) fields rfl
  | partialApplication carries function read noArgument => exact .application (parts read) nofun
  | application carries function read argument given readArgument =>
      exact .application (parts read) fun a same => Option.some.inj same ▸ parts readArgument
  | lambda carries params named body read => exact .lambda named (parts read)
  | fixpoint carries read => exact .fixpoint (parts read)
  | cases carries scrutinee read branches items =>
      refine .cases (parts read) (fun b member => ?_) fun b member => ?_
      · obtain ⟨w, ⟨_, shaped, _, _⟩⟩ := exists_of_forall₂ items.flip b member
        exact shaped
      · obtain ⟨w, ⟨_, _, _, readResult⟩⟩ := exists_of_forall₂ items.flip b member
        exact parts readResult

theorem wellFormed_of_decode (h : decode v = .ok e) : e.WellFormed :=
  decode_induct (P := fun _ e => e.WellFormed) (fun level => level.wellFormed And.right) h

end Expr

end ExprRegistry
