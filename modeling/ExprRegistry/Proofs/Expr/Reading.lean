import ExprRegistry.Expr.Decode
import ExprRegistry.Proofs.Data.Pairing
import ExprRegistry.Proofs.Expr.Name
import ExprRegistry.Proofs.Json.Parts

/-!
What is read as an expression, one level at a time. `Expr.Reading R` relates a document to an expression
whose parts are related by `R`, and `decode` is the relation that it leads to. Reading a part of a document
never takes longer than reading the document, so what a level keeps holds of everything that is read. Main
statements: `Expr.decode_eq_ok_iff` and `Expr.decode_induct`.
-/

namespace ExprRegistry

theorem map_eq_ok_iff {ε α β : Type} {x : Except ε α} {f : α → β} {b : β} :
    x.map f = .ok b ↔ ∃ a, x = .ok a ∧ f a = b := by
  cases x <;> simp [Except.map]

theorem mapError_eq_ok_iff {ε δ α : Type} {x : Except ε α} {f : ε → δ} {a : α} :
    x.mapError f = .ok a ↔ x = .ok a := by
  cases x <;> simp [Except.mapError]

theorem eq_ok_of_toOption {ε α : Type} {x : Except ε α} {a : α} (h : x.toOption = some a) : x = .ok a := by
  cases x with
  | error e => cases h
  | ok b => rw [Option.some.inj h]

namespace Json

/-- Fields with a tag and a payload. What other keys there are does not count. -/
structure Carries (fields : Fields) (tag : String) (payload : Json) : Prop where
  tagged : field? fields "g" = some (.str tag)
  loaded : field? fields "v" = some payload

/-- A value that a branch may have as its pattern: an object, or one of two words. -/
def IsPattern (v : Json) : Prop := (∃ fields, v = .obj fields) ∨ v = .str "else" ∨ v = .str "else_pattern"

theorem isPattern_iff {v : Json} : v.isPattern = true ↔ v.IsPattern := by
  cases v with
  | scalar k =>
      cases k with
      | str t => cases t <;> simp [isPattern, IsPattern, elsePatterns]
      | _ => simp [isPattern, IsPattern]
  | arr items => simp [isPattern, IsPattern]
  | obj fields => simp [isPattern, IsPattern]

theorem isTagged_of_field {fields : Fields} {tag : Json} (h : field? fields "g" = some tag) :
    isTagged (.obj fields) = true := Option.isSome_of_eq_some h

theorem sizeOf_part {fields parts : Fields} {tag key : String} {v : Json}
    (carries : Carries fields tag (.obj parts)) (h : field? parts key = some v) :
    sizeOf v < sizeOf (obj fields) := Nat.lt_trans (sizeOf_field h) (sizeOf_field carries.loaded)

end Json

theorem Form.ofTag?_eq_some_iff {tag : String} {form : Form} : ofTag? tag = some form ↔ form.tag = tag := by
  constructor
  · intro h
    have found := List.find?_some h
    exact beq_iff_eq.mp found
  · rintro rfl
    cases form <;> rfl

namespace Expr

/-! ### One level -/

/-- Reads the payload of a form. -/
def decodePayload (form : Form) (payload : Json) : Except Invalid Expr :=
  match form with
  | .literal => decodeLiteral payload
  | .reference => decodeReference payload
  | .vector => decodeVector payload
  | .application => decodeApplication payload
  | .lambda => decodeLambda payload
  | .fixpoint => (atStep .inner (decode payload)).map fixpoint
  | .cases => decodeCases payload

/-- An item of a vector: an expression, or a value without a tag. -/
inductive ReadingItem (R : Json → Expr → Prop) : Json → Expr → Prop
  | expression {v e} : v.isTagged = true → R v e → ReadingItem R v e
  | value {v} : v.isTagged = false → ReadingItem R v (raw v)

/-- A branch of a match: a pattern, and the expression of its result. -/
inductive ReadingBranch (R : Json → Expr → Prop) : Json → Json × Expr → Prop
  | mk {fields pattern v e} : Json.field? fields "pattern" = some pattern → pattern.IsPattern →
      Json.field? fields "result" = some v → R v e → ReadingBranch R (.obj fields) (pattern, e)

/-- A document of an expression, of which the parts are read by a relation. -/
inductive Reading (R : Json → Expr → Prop) : Json → Expr → Prop
  | literal {fields v} : Json.Carries fields "lit" v → (∀ parts, v ≠ .obj parts) →
      Reading R (.obj fields) (literal v)
  | reference {fields name} : Json.Carries fields "ref" (.str name) → IsReference name →
      Reading R (.obj fields) (reference (.str name))
  | vector {fields vs es} : Json.Carries fields "vec" (.arr vs) → List.Forall₂ (ReadingItem R) vs es →
      Reading R (.obj fields) (vector es)
  | partialApplication {fields parts v f} : Json.Carries fields "app" (.obj parts) →
      Json.field? parts "fn" = some v → R v f → Json.fieldOrNull parts "args" = .null →
      Reading R (.obj fields) (application f none)
  | application {fields parts v f w a} : Json.Carries fields "app" (.obj parts) →
      Json.field? parts "fn" = some v → R v f → Json.field? parts "args" = some w → w ≠ .null → R w a →
      Reading R (.obj fields) (application f (some a))
  | lambda {fields parts params v e} : Json.Carries fields "lam" (.obj parts) →
      Json.field? parts "params" = some (.arr params) →
      (∀ p ∈ params, ∃ name, p = .str name ∧ IsParameter name) →
      Json.field? parts "body" = some v → R v e → Reading R (.obj fields) (lambda params e)
  | fixpoint {fields v e} : Json.Carries fields "fix" v → R v e → Reading R (.obj fields) (fixpoint e)
  | cases {fields parts v e vs branches} : Json.Carries fields "match" (.obj parts) →
      Json.field? parts "expr" = some v → R v e → Json.field? parts "branches" = some (.arr vs) →
      List.Forall₂ (ReadingBranch R) vs branches → Reading R (.obj fields) (cases e branches)

variable {R S : Json → Expr → Prop} {v : Json} {vs : List Json} {e : Expr} {fields : Fields}

theorem ReadingItem.mono (le : R v e → S v e) (h : ReadingItem R v e) : ReadingItem S v e := by
  cases h with
  | expression tagged read => exact .expression tagged (le read)
  | value untagged => exact .value untagged

theorem ReadingBranch.mono {b : Json × Expr} (le : ∀ w, sizeOf w < sizeOf v → R w b.2 → S w b.2)
    (h : ReadingBranch R v b) : ReadingBranch S v b := by
  cases h with
  | mk pattern shaped result read => exact .mk pattern shaped result (le _ (Json.sizeOf_field result) read)

/-- The parts may be read by any other relation that goes as far on smaller documents. -/
theorem Reading.mono (le : ∀ w f, sizeOf w < sizeOf v → R w f → S w f) (h : Reading R v e) :
    Reading S v e := by
  cases h with
  | literal carries notObject => exact .literal carries notObject
  | reference carries named => exact .reference carries named
  | vector carries items =>
      refine .vector carries (forall₂_mono (fun w member f => ReadingItem.mono ?_) items)
      exact le w f (Nat.lt_trans (Json.sizeOf_item member) (Json.sizeOf_field carries.loaded))
  | partialApplication carries function read noArgument =>
      exact .partialApplication carries function (le _ _ (Json.sizeOf_part carries function) read)
        noArgument
  | application carries function read argument given readArgument =>
      exact .application carries function (le _ _ (Json.sizeOf_part carries function) read) argument given
        (le _ _ (Json.sizeOf_part carries argument) readArgument)
  | lambda carries params named body read =>
      exact .lambda carries params named body (le _ _ (Json.sizeOf_part carries body) read)
  | fixpoint carries read => exact .fixpoint carries (le _ _ (Json.sizeOf_field carries.loaded) read)
  | cases carries scrutinee read branches items =>
      refine .cases carries scrutinee (le _ _ (Json.sizeOf_part carries scrutinee) read) branches
        (forall₂_mono (fun w member b => ReadingBranch.mono fun x small => le x b.2 ?_) items)
      exact Nat.lt_trans small (Nat.lt_trans (Json.sizeOf_item member) (Json.sizeOf_part carries branches))

/-! ### The functions that read -/

/-- What a document is read as. -/
def Reads (v : Json) (e : Expr) : Prop := decode v = .ok e

theorem atStep_eq_ok_iff {α : Type} {step : Step} {x : Except Invalid α} {a : α} :
    atStep step x = .ok a ↔ x = .ok a := mapError_eq_ok_iff

theorem refuse_ne_ok {α : Type} {fault : Fault} {a : α} : refuse fault ≠ .ok a := by
  intro h
  cases h

theorem decodeField_eq (key : String) (step : Step) (absent : Fault) (fields : Fields) :
    decodeField key step absent fields =
      match Json.field? fields key with
      | none => refuse absent
      | some v => atStep step (decode v) := by
  induction fields with
  | nil => rw [decodeField]; rfl
  | cons entry rest ih =>
      rw [decodeField, Json.field?_cons]
      split
      · rfl
      · exact ih

theorem decodeTagged_eq (form : Form) (fields : Fields) :
    decodeTagged form fields =
      match Json.field? fields "v" with
      | none => refuse (.noPayload form)
      | some payload => decodePayload form payload := by
  induction fields with
  | nil => rw [decodeTagged]; rfl
  | cons entry rest ih =>
      rw [Json.field?_cons]
      cases form <;> rw [decodeTagged] <;> split <;> first | rfl | exact ih

theorem decodeBranchesField_eq (fields : Fields) :
    decodeBranchesField fields =
      match Json.field? fields "branches" with
      | none => refuse .noBranches
      | some (.arr vs) => decodeBranches 0 vs
      | some _ => refuse .branchesNotList := by
  induction fields with
  | nil => rw [decodeBranchesField]; rfl
  | cons entry rest ih =>
      obtain ⟨k, v⟩ := entry
      rw [Json.field?_cons]
      cases v <;> simp only [decodeBranchesField] <;> split <;> first | rfl | exact ih

theorem decodeField_eq_ok_iff {key : String} {step : Step} {absent : Fault} :
    decodeField key step absent fields = .ok e ↔ ∃ v, Json.field? fields key = some v ∧ Reads v e := by
  rw [decodeField_eq]
  cases Json.field? fields key with
  | none => simp [refuse_ne_ok]
  | some v => simp [atStep_eq_ok_iff, Reads]

theorem checkParams_eq_ok_iff {params : List Json} :
    checkParams params = .ok () ↔ ∀ p ∈ params, ∃ name, p = .str name ∧ IsParameter name := by
  fun_induction checkParams params with
  | case1 => simp
  | case2 name rest named ih => simp [ih, isParameterName_iff.mp named]
  | case3 name rest unnamed =>
      simp [refuse_ne_ok, ← isParameterName_iff, unnamed]
  | case4 t rest notWhole =>
      refine iff_of_false refuse_ne_ok fun h => ?_
      obtain ⟨name, same, _⟩ := h (.text t) List.mem_cons_self
      cases same
      exact notWhole name rfl
  | case5 p rest notText =>
      refine iff_of_false refuse_ne_ok fun h => ?_
      obtain ⟨name, rfl, _⟩ := h p List.mem_cons_self
      exact notText name rfl

theorem readingItem_of_tagged (tagged : v.isTagged = true) : ReadingItem R v e ↔ R v e := by
  refine ⟨fun h => ?_, fun read => .expression tagged read⟩
  rcases h with ⟨_, read⟩ | untagged
  · exact read
  · rw [tagged] at untagged
    cases untagged

theorem readingItem_of_untagged (untagged : v.isTagged = false) : ReadingItem R v e ↔ raw v = e := by
  refine ⟨fun h => ?_, fun same => same ▸ .value untagged⟩
  rcases h with ⟨tagged, _⟩ | _
  · rw [untagged] at tagged
    cases tagged
  · rfl

theorem decodeItems_eq_ok_iff {index : Nat} {es : List Expr} :
    decodeItems index vs = .ok es ↔ List.Forall₂ (ReadingItem Reads) vs es := by
  induction vs generalizing index es with
  | nil => simp [decodeItems, eq_comm]
  | cons v rest ih =>
      rw [decodeItems, List.forall₂_cons_left_iff]
      cases tagged : v.isTagged with
      | true =>
          simp only [readingItem_of_tagged tagged, Reads]
          cases decode v with
          | error refused => simp [atStep, Except.mapError]
          | ok first => simp [atStep, Except.mapError, map_eq_ok_iff, ih, @eq_comm _ es]
      | false =>
          simp [readingItem_of_untagged tagged, map_eq_ok_iff, ih, @eq_comm _ es]

theorem decodeBranch_eq_ok_iff {index : Nat} {b : Json × Expr} :
    decodeBranch index v = .ok b ↔ ReadingBranch Reads v b := by
  constructor
  · intro h
    cases v with
    | scalar k => cases h
    | arr items => cases h
    | obj fields =>
        rw [decodeBranch] at h
        split at h
        case h_1 => cases h
        case h_2 pattern here =>
          split at h
          case isTrue => cases h
          case isFalse =>
            split at h
            case isTrue => cases h
            case isFalse shaped =>
              obtain ⟨e, read, rfl⟩ := map_eq_ok_iff.mp h
              obtain ⟨v, result, read⟩ := decodeField_eq_ok_iff.mp read
              exact .mk here (Json.isPattern_iff.mp (by simpa using shaped)) result read
  · rintro ⟨here, shaped, result, read⟩
    have present := Json.hasField_iff.mpr ⟨_, result⟩
    have accepted := Json.isPattern_iff.mpr shaped
    simp only [decodeBranch, here, present, accepted, Bool.not_true, Bool.false_eq_true, if_false]
    exact map_eq_ok_iff.mpr ⟨_, decodeField_eq_ok_iff.mpr ⟨_, result, read⟩, rfl⟩

theorem decodeBranches_eq_ok_iff {index : Nat} {branches : List (Json × Expr)} :
    decodeBranches index vs = .ok branches ↔ List.Forall₂ (ReadingBranch Reads) vs branches := by
  induction vs generalizing index branches with
  | nil => simp [decodeBranches, eq_comm]
  | cons v rest ih =>
      rw [decodeBranches]
      rw [List.forall₂_cons_left_iff]
      simp only [← @decodeBranch_eq_ok_iff _ index]
      cases decodeBranch index v with
      | error refused => simp
      | ok first => simp [map_eq_ok_iff, ih, @eq_comm _ branches]

/-! ### Reading level by level -/

theorem Reading.of_literal (carries : Json.Carries fields "lit" v) (h : decodeLiteral v = .ok e) :
    Reading R (.obj fields) e := by
  cases v with
  | scalar k => cases h; exact .literal carries nofun
  | arr items => cases h; exact .literal carries nofun
  | obj parts => cases h

theorem Reading.of_reference (carries : Json.Carries fields "ref" v) (h : decodeReference v = .ok e) :
    Reading R (.obj fields) e := by
  unfold decodeReference at h
  split at h
  case h_1 name =>
    split at h
    case isTrue named =>
      cases h
      exact .reference carries (isReferenceName_iff.mp named)
    case isFalse => cases h
  case h_2 => cases h
  case h_3 => cases h

theorem Reading.of_vector (carries : Json.Carries fields "vec" v) (h : decodeVector v = .ok e) :
    Reading Reads (.obj fields) e := by
  cases v with
  | scalar k => cases h
  | obj parts => cases h
  | arr vs =>
      obtain ⟨es, read, rfl⟩ := map_eq_ok_iff.mp h
      exact .vector carries (decodeItems_eq_ok_iff.mp read)

theorem Reading.of_application (carries : Json.Carries fields "app" v)
    (h : decodeApplication v = .ok e) : Reading Reads (.obj fields) e := by
  cases v with
  | scalar k => cases h
  | arr items => cases h
  | obj parts =>
      rw [decodeApplication] at h
      split at h
      case h_1 => cases h
      case h_2 f read =>
        obtain ⟨w, function, read⟩ := decodeField_eq_ok_iff.mp read
        split at h
        case isTrue noArgument =>
          cases h
          exact .partialApplication carries function read noArgument
        case isFalse given =>
          obtain ⟨a, readArgument, rfl⟩ := map_eq_ok_iff.mp h
          obtain ⟨x, argument, readArgument⟩ := decodeField_eq_ok_iff.mp readArgument
          rw [Json.fieldOrNull, argument] at given
          exact .application carries function read argument given readArgument

theorem Reading.of_lambda (carries : Json.Carries fields "lam" v) (h : decodeLambda v = .ok e) :
    Reading Reads (.obj fields) e := by
  cases v with
  | scalar k => cases h
  | arr items => cases h
  | obj parts =>
      rw [decodeLambda] at h
      split at h
      case h_1 => cases h
      case h_2 params here =>
        split at h
        case isTrue => cases h
        case isFalse =>
          split at h
          case h_1 list =>
            split at h
            case h_1 => cases h
            case h_2 checked =>
              obtain ⟨body, read, rfl⟩ := map_eq_ok_iff.mp h
              obtain ⟨w, written, read⟩ := decodeField_eq_ok_iff.mp read
              exact .lambda carries here (checkParams_eq_ok_iff.mp checked) written read
          case h_2 => cases h

theorem Reading.of_cases (carries : Json.Carries fields "match" v) (h : decodeCases v = .ok e) :
    Reading Reads (.obj fields) e := by
  cases v with
  | scalar k => cases h
  | arr items => cases h
  | obj parts =>
      rw [decodeCases] at h
      split at h
      case isTrue => cases h
      case isFalse =>
        split at h
        case h_1 => cases h
        case h_2 vs here =>
          split at h
          case h_1 => cases h
          case h_2 scrutinee read =>
            obtain ⟨w, written, read⟩ := decodeField_eq_ok_iff.mp read
            obtain ⟨branches, readBranches, rfl⟩ := map_eq_ok_iff.mp h
            simp only [decodeBranchesField_eq, here] at readBranches
            exact .cases carries written read here (decodeBranches_eq_ok_iff.mp readBranches)
        case h_3 => cases h

theorem Reading.of_payload {form : Form} (carries : Json.Carries fields form.tag v)
    (h : decodePayload form v = .ok e) : Reading Reads (.obj fields) e := by
  cases form with
  | literal => exact .of_literal carries h
  | reference => exact .of_reference carries h
  | application => exact .of_application carries h
  | vector => exact .of_vector carries h
  | lambda => exact .of_lambda carries h
  | fixpoint =>
      obtain ⟨inner, read, rfl⟩ := map_eq_ok_iff.mp h
      exact .fixpoint carries (atStep_eq_ok_iff.mp read)
  | cases => exact .of_cases carries h

theorem decode_of_carries (form : Form) (carries : Json.Carries fields form.tag v) :
    decode (.obj fields) = decodePayload form v := by
  simp only [decode, carries.tagged, Form.ofTag?_eq_some_iff.mpr rfl, decodeTagged_eq, carries.loaded]

theorem reading_of_decode (h : decode v = .ok e) : Reading Reads v e := by
  cases v with
  | scalar k => cases h
  | arr items => cases h
  | obj fields =>
      rw [decode] at h
      split at h
      case h_1 => cases h
      case h_2 tag tagged =>
        split at h
        case h_1 form named =>
          rw [decodeTagged_eq] at h
          split at h
          case h_1 => cases h
          case h_2 payload loaded =>
            cases Form.ofTag?_eq_some_iff.mp named
            exact .of_payload ⟨tagged, loaded⟩ h
        case h_2 => cases h
      case h_3 => cases h

theorem decode_of_reading (h : Reading Reads v e) : decode v = .ok e := by
  cases h with
  | @literal _ v carries notObject =>
      rw [decode_of_carries .literal carries]
      cases v with
      | obj parts => exact absurd rfl (notObject parts)
      | _ => rfl
  | reference carries named =>
      rw [decode_of_carries .reference carries]
      exact if_pos (isReferenceName_iff.mpr named)
  | vector carries items =>
      rw [decode_of_carries .vector carries]
      exact map_eq_ok_iff.mpr ⟨_, decodeItems_eq_ok_iff.mpr items, rfl⟩
  | partialApplication carries function read noArgument =>
      rw [decode_of_carries .application carries]
      simp only [decodePayload, decodeApplication, decodeField_eq_ok_iff.mpr ⟨_, function, read⟩,
        noArgument, if_true]
  | @application _ parts _ _ _ _ carries function read argument given readArgument =>
      rw [decode_of_carries .application carries]
      have given : ¬ Json.fieldOrNull parts "args" = .null := by rwa [Json.fieldOrNull, argument]
      simp only [decodePayload, decodeApplication, decodeField_eq_ok_iff.mpr ⟨_, function, read⟩,
        if_neg given]
      exact map_eq_ok_iff.mpr ⟨_, decodeField_eq_ok_iff.mpr ⟨_, argument, readArgument⟩, rfl⟩
  | lambda carries params named body read =>
      rw [decode_of_carries .lambda carries]
      simp only [decodePayload, decodeLambda, params, Json.hasField_iff.mpr ⟨_, body⟩, Bool.not_true,
        Bool.false_eq_true, if_false, checkParams_eq_ok_iff.mpr named]
      exact map_eq_ok_iff.mpr ⟨_, decodeField_eq_ok_iff.mpr ⟨_, body, read⟩, rfl⟩
  | fixpoint carries read =>
      rw [decode_of_carries .fixpoint carries]
      exact map_eq_ok_iff.mpr ⟨_, atStep_eq_ok_iff.mpr read, rfl⟩
  | cases carries scrutinee read branches items =>
      rw [decode_of_carries .cases carries]
      simp only [decodePayload, decodeCases, Json.hasField_iff.mpr ⟨_, scrutinee⟩, branches,
        Bool.not_true, Bool.false_eq_true, if_false, decodeField_eq_ok_iff.mpr ⟨_, scrutinee, read⟩,
        decodeBranchesField_eq]
      exact map_eq_ok_iff.mpr ⟨_, decodeBranches_eq_ok_iff.mpr items, rfl⟩

/-- A document is read as an expression exactly when its parts are. -/
theorem decode_eq_ok_iff : decode v = .ok e ↔ Reading (fun w f => decode w = .ok f) v e :=
  ⟨reading_of_decode, decode_of_reading⟩

theorem isTagged_of_decode (h : decode v = .ok e) : v.isTagged = true := by
  cases v with
  | scalar k => cases h
  | arr items => cases h
  | obj fields =>
      cases here : Json.field? fields "g" with
      | none =>
          rw [decode, here] at h
          cases h
      | some tag => exact Json.isTagged_of_field here

/-- What every level keeps if it holds of the parts, holds of all that is read. -/
theorem decode_induct {P : Json → Expr → Prop}
    (level : ∀ {v e}, Reading (fun w f => decode w = .ok f ∧ P w f) v e → P v e)
    (h : decode v = .ok e) : P v e := by
  -- On the size: the parts stand in fields and lists, so they are no recursive arguments of the document.
  induction size : sizeOf v using Nat.strongRecOn generalizing v e with
  | ind n ih =>
      subst size
      exact level ((decode_eq_ok_iff.mp h).mono fun w f smaller read => ⟨read, ih _ smaller read rfl⟩)

end Expr

end ExprRegistry
