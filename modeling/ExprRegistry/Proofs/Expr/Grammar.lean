import ExprRegistry.Proofs.Expr.Reading

/-!
The grammar of expressions, said of documents alone. Main statement: exactly the documents of the grammar
are read as expressions.
-/

namespace ExprRegistry

namespace Json

/-- A value that may be a branch: an object that has a pattern and a result. -/
def IsBranch (v : Json) : Prop :=
  ∃ fields pattern result, v = .obj fields ∧ field? fields "pattern" = some pattern ∧
    pattern.IsPattern ∧ field? fields "result" = some result

/-- The documents of expressions: the least set that is closed under these rules. No other key of an
object counts, and neither does a value at a place of which nothing is said. -/
inductive Grammatical : Json → Prop
  | literal {fields v} : Carries fields "lit" v → (∀ parts, v ≠ .obj parts) → Grammatical (.obj fields)
  | reference {fields name} : Carries fields "ref" (.str name) → IsReference name →
      Grammatical (.obj fields)
  | vector {fields items} : Carries fields "vec" (.arr items) →
      (∀ parts tag, .obj parts ∈ items → field? parts "g" = some tag → Grammatical (.obj parts)) →
      Grammatical (.obj fields)
  | application {fields parts f} : Carries fields "app" (.obj parts) →
      field? parts "fn" = some f → Grammatical f →
      (∀ a, field? parts "args" = some a → a ≠ .null → Grammatical a) → Grammatical (.obj fields)
  | lambda {fields parts params body} : Carries fields "lam" (.obj parts) →
      field? parts "params" = some (.arr params) →
      (∀ p ∈ params, ∃ name, p = .str name ∧ IsParameter name) →
      field? parts "body" = some body → Grammatical body → Grammatical (.obj fields)
  | fixpoint {fields v} : Carries fields "fix" v → Grammatical v → Grammatical (.obj fields)
  | cases {fields parts scrutinee branches} : Carries fields "match" (.obj parts) →
      field? parts "expr" = some scrutinee → Grammatical scrutinee →
      field? parts "branches" = some (.arr branches) → (∀ b ∈ branches, b.IsBranch) →
      (∀ branch result, .obj branch ∈ branches → field? branch "result" = some result →
        Grammatical result) → Grammatical (.obj fields)

end Json

namespace Expr

variable {R : Json → Expr → Prop} {v : Json} {e : Expr}

theorem ReadingItem.of_field {parts : Fields} {tag : Json} (tagged : Json.field? parts "g" = some tag)
    (h : ReadingItem R (.obj parts) e) : R (.obj parts) e :=
  (readingItem_of_tagged (Json.isTagged_of_field tagged)).mp h

theorem ReadingBranch.isBranch {b : Json × Expr} (h : ReadingBranch R v b) : v.IsBranch := by
  cases h with
  | mk pattern shaped result read => exact ⟨_, _, _, rfl, pattern, shaped, result⟩

theorem ReadingBranch.of_field {branch : Fields} {result : Json} {b : Json × Expr}
    (here : Json.field? branch "result" = some result) (h : ReadingBranch R (.obj branch) b) :
    R result b.2 := by
  cases h with
  | mk pattern shaped found read =>
      cases here.symm.trans found
      exact read

/-- A document is of the grammar when the parts that are read are. -/
theorem Reading.grammatical (h : Reading R v e) (parts : ∀ {w f}, R w f → w.Grammatical) :
    v.Grammatical := by
  cases h with
  | literal carries notObject => exact .literal carries notObject
  | reference carries named => exact .reference carries named
  | vector carries items =>
      refine .vector carries fun fields tag member tagged => ?_
      obtain ⟨f, item⟩ := exists_of_forall₂ items _ member
      exact parts (item.of_field tagged)
  | partialApplication carries function read noArgument =>
      refine .application carries function (parts read) fun a argument given => absurd ?_ given
      rwa [Json.fieldOrNull, argument] at noArgument
  | application carries function read argument given readArgument =>
      refine .application carries function (parts read) fun a found _ => ?_
      cases argument.symm.trans found
      exact parts readArgument
  | lambda carries params named body read => exact .lambda carries params named body (parts read)
  | fixpoint carries read => exact .fixpoint carries (parts read)
  | cases carries scrutinee read branches items =>
      refine .cases carries scrutinee (parts read) branches (fun w member => ?_)
        fun branch result member found => ?_
      · obtain ⟨b, item⟩ := exists_of_forall₂ items w member
        exact item.isBranch
      · obtain ⟨b, item⟩ := exists_of_forall₂ items _ member
        exact parts (item.of_field found)

theorem grammatical_of_decode (h : decode v = .ok e) : v.Grammatical :=
  decode_induct (P := fun v _ => v.Grammatical) (fun level => level.grammatical And.right) h

theorem exists_readingItem
    (read : ∀ parts tag, v = .obj parts → Json.field? parts "g" = some tag → ∃ e, R v e) :
    ∃ e, ReadingItem R v e := by
  cases tagged : v.isTagged with
  | false => exact ⟨raw v, .value tagged⟩
  | true =>
      cases v with
      | scalar k => cases tagged
      | arr items => cases tagged
      | obj parts =>
          obtain ⟨tag, found⟩ := Json.hasField_iff.mp tagged
          obtain ⟨e, read⟩ := read parts tag rfl found
          exact ⟨e, .expression tagged read⟩

theorem exists_readingBranch (shaped : v.IsBranch)
    (read : ∀ branch result, v = .obj branch → Json.field? branch "result" = some result →
      ∃ e, R result e) : ∃ b, ReadingBranch R v b := by
  obtain ⟨branch, pattern, result, rfl, here, isPattern, found⟩ := shaped
  obtain ⟨e, read⟩ := read branch result rfl found
  exact ⟨(pattern, e), .mk here isPattern found read⟩

theorem exists_reading (h : v.Grammatical) : ∃ e, Reading Reads v e := by
  induction h with
  | literal carries notObject => exact ⟨_, .literal carries notObject⟩
  | reference carries named => exact ⟨_, .reference carries named⟩
  | @vector fields items carries tagged ih =>
      have each (v : Json) (member : v ∈ items) : ∃ e, ReadingItem Reads v e := by
        refine exists_readingItem fun parts tag same found => ?_
        subst same
        exact (ih parts tag member found).imp fun e => decode_of_reading
      obtain ⟨es, read⟩ := exists_forall₂ each
      exact ⟨_, .vector carries read⟩
  | @application fields parts f carries function _ argument ihFunction ihArgument =>
      obtain ⟨g, read⟩ := ihFunction
      -- A null argument is one that is not there, so both are one case.
      by_cases absent : Json.fieldOrNull parts "args" = .null
      · exact ⟨_, .partialApplication carries function (decode_of_reading read) absent⟩
      · cases here : Json.field? parts "args" with
        | none => exact absurd (by rw [Json.fieldOrNull, here]; rfl) absent
        | some a =>
            have given : a ≠ .null := by rwa [Json.fieldOrNull, here] at absent
            obtain ⟨b, readArgument⟩ := ihArgument a here given
            exact ⟨_, .application carries function (decode_of_reading read) here given
              (decode_of_reading readArgument)⟩
  | lambda carries params named body _ ih =>
      obtain ⟨e, read⟩ := ih
      exact ⟨_, .lambda carries params named body (decode_of_reading read)⟩
  | fixpoint carries _ ih =>
      obtain ⟨e, read⟩ := ih
      exact ⟨_, .fixpoint carries (decode_of_reading read)⟩
  | @cases fields parts scrutinee branches carries found _ here shaped _ ih ihResult =>
      obtain ⟨e, read⟩ := ih
      have each (b : Json) (member : b ∈ branches) : ∃ c, ReadingBranch Reads b c := by
        refine exists_readingBranch (shaped b member) fun branch result same found => ?_
        subst same
        exact (ihResult branch result member found).imp fun e => decode_of_reading
      obtain ⟨results, readBranches⟩ := exists_forall₂ each
      exact ⟨_, .cases carries found (decode_of_reading read) here readBranches⟩

end Expr

/-- Reading accepts the documents of the grammar and no others. -/
theorem exists_decode_iff_grammatical (v : Json) : (∃ e, Expr.decode v = .ok e) ↔ v.Grammatical := by
  constructor
  · rintro ⟨e, read⟩
    exact Expr.grammatical_of_decode read
  · intro h
    obtain ⟨e, read⟩ := Expr.exists_reading h
    exact ⟨e, Expr.decode_of_reading read⟩

end ExprRegistry
