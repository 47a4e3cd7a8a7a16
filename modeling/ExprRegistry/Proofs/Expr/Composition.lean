import ExprRegistry.Proofs.Expr.WellFormed

/-!
Names that are free in a term, and what composing does to them. A composition binds the name `x`, so it keeps the
names that are free in its parts, and takes an argument to what its parts make of it one after the other, exactly if
`x` is free in neither of them. Main statement: `compose_keeps_free_iff`.
-/

namespace ExprRegistry

namespace Expr

/-- A name is free in a term where a reference to it stands under no lambda with a parameter of that name. Values that
are no expressions hold no references, and patterns bind nothing. -/
inductive Free (name : String) : Expr → Prop
  | reference : Free name (.reference (.str name))
  | item {items : List Expr} {e : Expr} (member : e ∈ items) (inside : Free name e) : Free name (.vector items)
  | function {f : Expr} {argument : Option Expr} (inside : Free name f) : Free name (.application f argument)
  | argument {f a : Expr} (inside : Free name a) : Free name (.application f (some a))
  | body {params : List Json} {e : Expr} (unbound : .str name ∉ params) (inside : Free name e) :
      Free name (.lambda params e)
  | inner {e : Expr} (inside : Free name e) : Free name (.fixpoint e)
  | scrutinee {e : Expr} {branches : List (Json × Expr)} (inside : Free name e) : Free name (.cases e branches)
  | result {e : Expr} {branches : List (Json × Expr)} {b : Json × Expr} (member : b ∈ branches)
      (inside : Free name b.2) : Free name (.cases e branches)

mutual

/-- Puts a term in the place of every reference to a name that is free there. -/
def instantiate (name : String) (a : Expr) : Expr → Expr
  | reference n => if n = .str name then a else reference n
  | vector items => vector (instantiateItems name a items)
  | application f none => application (instantiate name a f) none
  | application f (some b) => application (instantiate name a f) (some (instantiate name a b))
  | lambda params body => if .str name ∈ params then lambda params body else lambda params (instantiate name a body)
  | fixpoint inner => fixpoint (instantiate name a inner)
  | cases e branches => cases (instantiate name a e) (instantiateResults name a branches)
  | literal v => literal v
  | raw v => raw v
  | branch pattern result => branch pattern result

def instantiateItems (name : String) (a : Expr) : List Expr → List Expr
  | [] => []
  | e :: rest => instantiate name a e :: instantiateItems name a rest

def instantiateResults (name : String) (a : Expr) : List (Json × Expr) → List (Json × Expr)
  | [] => []
  | (pattern, e) :: rest => (pattern, instantiate name a e) :: instantiateResults name a rest

end

variable {name : String} {a e : Expr}

theorem instantiateItems_eq_map (name : String) (a : Expr) (items : List Expr) :
    instantiateItems name a items = items.map (instantiate name a) := by
  induction items with
  | nil => rfl
  | cons e rest ih => rw [instantiateItems, ih, List.map_cons]

theorem instantiateResults_eq_map (name : String) (a : Expr) (branches : List (Json × Expr)) :
    instantiateResults name a branches = branches.map fun b => (b.1, instantiate name a b.2) := by
  induction branches with
  | nil => rfl
  | cons b rest ih => rw [instantiateResults, ih, List.map_cons]

/-- Where a name is not free nothing is put in its place. -/
theorem instantiate_eq_self (h : ¬Free name e) : instantiate name a e = e := by
  induction e using induct with
  | literal v => rfl
  | reference n =>
      rw [instantiate, if_neg]
      rintro rfl
      exact h .reference
  | vector items ih =>
      rw [instantiate, instantiateItems_eq_map, map_eq_self_iff.mpr]
      exact fun e member => ih e member fun inside => h (.item member inside)
  | application f argument ih ihArgument =>
      have function := ih fun inside => h (.function inside)
      cases argument with
      | none => rw [instantiate, function]
      | some b => rw [instantiate, function, ihArgument b rfl fun inside => h (.argument inside)]
  | lambda params body ih =>
      rw [instantiate]
      split
      case isTrue => rfl
      case isFalse unbound => rw [ih fun inside => h (.body unbound inside)]
  | fixpoint inner ih => rw [instantiate, ih fun inside => h (.inner inside)]
  | cases scrutinee branches ih ihResult =>
      rw [instantiate, ih fun inside => h (.scrutinee inside), instantiateResults_eq_map, map_eq_self_iff.mpr]
      intro b member
      rw [ihResult b member fun inside => h (.result member inside)]
  | raw v => rfl
  | branch pattern result => rfl

/-- Where a name is free another term in its place makes another term. -/
theorem instantiate_ne_self (h : Free name e) (other : a ≠ reference (.str name)) : instantiate name a e ≠ e := by
  induction h with
  | reference => rwa [instantiate, if_pos rfl]
  | item member _ ih =>
      rw [instantiate, instantiateItems_eq_map]
      intro same
      exact ih (map_eq_self_iff.mp (vector.inj same) _ member)
  | @function f argument _ ih =>
      cases argument with
      | none =>
          rw [instantiate]
          intro same
          exact ih (application.inj same).1
      | some b =>
          rw [instantiate]
          intro same
          exact ih (application.inj same).1
  | argument _ ih =>
      rw [instantiate]
      intro same
      exact ih (Option.some.inj (application.inj same).2)
  | body unbound _ ih =>
      rw [instantiate, if_neg unbound]
      intro same
      exact ih (lambda.inj same).2
  | inner _ ih =>
      rw [instantiate]
      intro same
      exact ih (fixpoint.inj same)
  | scrutinee _ ih =>
      rw [instantiate]
      intro same
      exact ih (cases.inj same).1
  | result member _ ih =>
      rw [instantiate, instantiateResults_eq_map]
      intro same
      exact ih (congrArg Prod.snd (map_eq_self_iff.mp (cases.inj same).2 _ member))

theorem instantiate_eq_self_iff (other : a ≠ reference (.str name)) : instantiate name a e = e ↔ ¬Free name e :=
  ⟨fun same inside => instantiate_ne_self inside other same, instantiate_eq_self⟩

/-! ### Compositions -/

theorem apply_of_isExpression (f : Expr) (h : a.isExpression = true) : apply f a = application f (some a) := by
  cases a with
  | raw v => cases h
  | _ => rfl

/-- The term that a composition makes of its parameter. -/
def composed (f g : Expr) : Expr := application f (some (application g (some (reference (.str "x")))))

theorem compose_eq (f g : Expr) : compose f g = lambda [.str "x"] (composed f g) := rfl

theorem free_composed_iff (f g : Expr) :
    Free name (composed f g) ↔ Free name f ∨ Free name g ∨ name = "x" := by
  constructor
  · rintro (_ | _ | inside | inside)
    · exact .inl inside
    · rcases inside with _ | _ | inside | inside
      · exact .inr (.inl inside)
      · cases inside
        exact .inr (.inr rfl)
  · rintro (inside | inside | rfl)
    · exact .function inside
    · exact .argument (.function inside)
    · exact .argument (.argument .reference)

theorem free_compose_iff (f g : Expr) : Free name (compose f g) ↔ name ≠ "x" ∧ (Free name f ∨ Free name g) := by
  have bound : Json.str name ∉ [Json.str "x"] ↔ name ≠ "x" := by simp
  rw [compose_eq]
  constructor
  · rintro (_ | _ | _ | _ | ⟨unbound, inside⟩)
    have other := bound.mp unbound
    rw [free_composed_iff] at inside
    rcases inside with inside | inside | same
    · exact ⟨other, .inl inside⟩
    · exact ⟨other, .inr inside⟩
    · exact absurd same other
  · rintro ⟨other, inside⟩
    refine .body (bound.mpr other) ((free_composed_iff f g).mpr ?_)
    rcases inside with inside | inside
    · exact .inl inside
    · exact .inr (.inl inside)

theorem instantiate_composed (a f g : Expr) :
    instantiate "x" a (composed f g) =
      application (instantiate "x" a f) (some (application (instantiate "x" a g) (some a))) := by
  rw [composed, instantiate, instantiate, instantiate, if_pos rfl]

/-- Every argument of a composition is taken to what its parts make of it, if `x` is free in neither of them, and
only then. -/
theorem composed_applies_iff (f g : Expr) :
    (∀ a, a.isExpression = true → instantiate "x" a (composed f g) = apply f (apply g a)) ↔
      ¬Free "x" f ∧ ¬Free "x" g := by
  constructor
  · intro applies
    have same := applies (literal .null) rfl
    rw [instantiate_composed] at same
    have other : literal .null ≠ reference (.str "x") := nofun
    obtain ⟨function, argument⟩ := application.inj same
    obtain ⟨inner, -⟩ := application.inj (Option.some.inj argument)
    exact ⟨(instantiate_eq_self_iff other).mp function, (instantiate_eq_self_iff other).mp inner⟩
  · rintro ⟨absent, absent'⟩ a expression
    rw [instantiate_composed, instantiate_eq_self absent, instantiate_eq_self absent',
      apply_of_isExpression g expression]
    rfl

/-- A composition keeps the names that are free in its parts, but for the name `x`. So it keeps all of them exactly if
`x` is free in neither part, and exactly then it is the function that applies one part after the other. -/
theorem compose_keeps_free_iff (f g : Expr) :
    (∀ name, Free name (compose f g) ↔ name ≠ "x" ∧ (Free name f ∨ Free name g)) ∧
    ((∀ name, Free name (compose f g) ↔ Free name f ∨ Free name g) ↔ ¬Free "x" f ∧ ¬Free "x" g) ∧
    ((∃ body, compose f g = lambda [.str "x"] body ∧
        ∀ a, a.isExpression = true → instantiate "x" a body = apply f (apply g a)) ↔
      ¬Free "x" f ∧ ¬Free "x" g) := by
  refine ⟨fun name => free_compose_iff f g, ⟨fun keeps => ?_, fun absent name => ?_⟩, ⟨?_, fun absent => ?_⟩⟩
  · have lost : ¬(Free "x" f ∨ Free "x" g) := fun inside =>
      ((free_compose_iff f g).mp ((keeps "x").mpr inside)).1 rfl
    exact not_or.mp lost
  · rw [free_compose_iff]
    refine and_iff_right_of_imp fun inside => ?_
    rintro rfl
    exact not_or.mpr absent inside
  · rintro ⟨body, same, applies⟩
    rw [compose_eq] at same
    obtain ⟨-, rfl⟩ := lambda.inj same
    exact (composed_applies_iff f g).mp applies
  · exact ⟨composed f g, compose_eq f g, (composed_applies_iff f g).mpr absent⟩

/-- The reference `x` is free, and is not when it is composed. -/
theorem compose_captures :
    Free "x" (reference (.str "x")) ∧ ¬Free "x" (compose (reference (.str "x")) (reference (.str "g"))) :=
  ⟨.reference, fun inside => ((free_compose_iff _ _).mp inside).1 rfl⟩

end Expr

end ExprRegistry
