import ExprRegistry.Json.Reader
import ExprRegistry.Proofs.Expr.Reading
import ExprRegistry.Proofs.Json.TextKeyed

/-!
Documents as they are read from text: the keys of an object are different texts. Where there are no halves of
characters either, a value is regular. Main statements: whatever a text is loaded as has keys of this kind and a text of
its own, so it is regular, and a checksum can be taken of it, if it is whole.
-/

namespace ExprRegistry.Json

/-- In all objects of a value the keys are texts, and no two are the same. -/
inductive Orderly : Json → Prop
  | scalar (k : Scalar) : Orderly (.scalar k)
  | arr {items : List Json} (all : ∀ v ∈ items, Orderly v) : Orderly (.arr items)
  | obj {fields : Fields} (texts : ∀ e ∈ fields, e.1.isText = true) (distinct : Table.Distinct fields)
      (all : ∀ e ∈ fields, Orderly e.2) : Orderly (.obj fields)

/-- What the fields of an orderly object are. -/
structure OrderlyFields (fields : Fields) : Prop where
  texts : ∀ e ∈ fields, e.1.isText = true
  distinct : Table.Distinct fields
  all : ∀ e ∈ fields, e.2.Orderly

theorem OrderlyFields.obj {fields : Fields} (h : OrderlyFields fields) : Orderly (.obj fields) :=
  .obj h.texts h.distinct h.all

theorem Orderly.toFields {fields : Fields} (h : Orderly (.obj fields)) : OrderlyFields fields := by
  cases h with
  | obj texts distinct all => exact ⟨texts, distinct, all⟩

theorem Orderly.textKeyed {v : Json} (h : v.Orderly) : v.TextKeyed := by
  induction h with
  | scalar k => exact .scalar k
  | arr _ ih => exact .arr ih
  | obj texts _ _ ih => exact .obj texts ih

theorem OrderlyFields.nil : OrderlyFields [] := ⟨nofun, .nil, nofun⟩

theorem OrderlyFields.put {fields : Fields} {v : Json} (h : OrderlyFields fields) (key : Text) (given : v.Orderly) :
    OrderlyFields (fields.put (.str key) v) := by
  have both := Table.forall_mem_put (p := fun k : Scalar => k.isText = true) (k := .str key) rfl given
    fun e member => ⟨h.texts e member, h.all e member⟩
  exact ⟨fun e member => (both e member).1, h.distinct.put _ _, fun e member => (both e member).2⟩

theorem OrderlyFields.cons {k : Scalar} {v : Json} {fields : Fields} (text : k.isText = true)
    (new : Table.has k fields = false) (first : v.Orderly) (rest : OrderlyFields fields) :
    OrderlyFields ((k, v) :: fields) := by
  refine ⟨List.forall_mem_cons.mpr ⟨text, rest.texts⟩, List.pairwise_cons.mpr ⟨fun e member => ?_, rest.distinct⟩,
    List.forall_mem_cons.mpr ⟨first, rest.all⟩⟩
  rw [BEq.comm]
  exact Table.has_eq_false_iff.mp new e member

/-! ### Regular values -/

/-- An orderly value without halves of characters. -/
structure Regular (v : Json) : Prop where
  orderly : v.Orderly
  whole : v.isWhole = true

namespace Regular

variable {v : Json} {items : List Json} {fields : Fields}

theorem scalar {k : Scalar} (whole : k.isWhole = true) : Regular (.scalar k) := ⟨.scalar k, whole⟩

theorem arr (all : ∀ v ∈ items, v.Regular) : Regular (.arr items) :=
  ⟨.arr fun v member => (all v member).orderly, all_arr_iff.mpr fun v member => (all v member).whole⟩

theorem obj (names : ∀ e ∈ fields, e.1.isString = true) (distinct : Table.Distinct fields)
    (all : ∀ e ∈ fields, e.2.Regular) : Regular (.obj fields) where
  orderly := .obj (fun e member => (Scalar.isString_iff.mp (names e member)).1) distinct
    fun e member => (all e member).orderly
  whole := all_obj_iff.mpr fun e member =>
    ⟨(Scalar.isString_iff.mp (names e member)).2, (all e member).whole⟩

theorem names (h : Regular (.obj fields)) : ∀ e ∈ fields, e.1.isString = true := fun e member =>
  Scalar.isString_iff.mpr ⟨h.orderly.toFields.texts e member, (all_obj_iff.mp h.whole e member).1⟩

theorem item (h : Regular (.arr items)) : ∀ v ∈ items, v.Regular := by
  intro v member
  refine ⟨?_, all_arr_iff.mp h.whole v member⟩
  cases h.orderly with
  | arr all => exact all v member

theorem value (h : Regular (.obj fields)) : ∀ e ∈ fields, e.2.Regular := fun e member =>
  ⟨h.orderly.toFields.all e member, (all_obj_iff.mp h.whole e member).2⟩

theorem empty : Regular (.obj []) := .obj nofun .nil nofun

theorem cons (name : String) (new : Table.has (.str name) fields = false) (first : v.Regular)
    (rest : Regular (.obj fields)) : Regular (.obj ((.str name, v) :: fields)) where
  orderly := (rest.orderly.toFields.cons rfl new first.orderly).obj
  whole := all_obj_iff.mpr (List.forall_mem_cons.mpr ⟨⟨rfl, first.whole⟩, all_obj_iff.mp rest.whole⟩)

theorem field {key : String} (h : Regular (.obj fields)) (found : field? fields key = some v) : v.Regular := by
  obtain ⟨k, member, _⟩ := Table.mem_of_get? found
  exact h.value (k, v) member

end Regular

/-! ### A test -/

mutual

def isOrderly : Json → Bool
  | .scalar _ => true
  | .arr items => areOrderly items
  | .obj fields => areOrderlyFields fields

def areOrderly : List Json → Bool
  | [] => true
  | v :: rest => isOrderly v && areOrderly rest

def areOrderlyFields : List (Scalar × Json) → Bool
  | [] => true
  | (k, v) :: rest => k.isText && !Table.has k rest && isOrderly v && areOrderlyFields rest

end

mutual

theorem orderly_of_isOrderly : (v : Json) → v.isOrderly = true → v.Orderly
  | .scalar k, _ => .scalar k
  | .arr items, h => .arr (orderly_of_areOrderly items h)
  | .obj fields, h => (orderly_of_areOrderlyFields fields h).obj

theorem orderly_of_areOrderly : (items : List Json) → areOrderly items = true → ∀ v ∈ items, v.Orderly
  | [], _ => nofun
  | v :: rest, h => by
      obtain ⟨first, others⟩ := Bool.and_eq_true_iff.mp h
      exact List.forall_mem_cons.mpr ⟨orderly_of_isOrderly v first, orderly_of_areOrderly rest others⟩

theorem orderly_of_areOrderlyFields :
    (fields : List (Scalar × Json)) → areOrderlyFields fields = true → OrderlyFields fields
  | [], _ => .nil
  | (k, v) :: rest, h => by
      rw [areOrderlyFields, Bool.and_eq_true, Bool.and_eq_true, Bool.and_eq_true, Bool.not_eq_true'] at h
      obtain ⟨⟨⟨text, new⟩, first⟩, others⟩ := h
      exact .cons text new (orderly_of_isOrderly v first) (orderly_of_areOrderlyFields rest others)

end

def isRegular (v : Json) : Bool := v.isOrderly && v.isWhole

theorem regular_of_isRegular {v : Json} (h : v.isRegular = true) : v.Regular := by
  obtain ⟨orderly, whole⟩ := Bool.and_eq_true_iff.mp h
  exact ⟨orderly_of_isOrderly v orderly, whole⟩

/-! ### Reading -/

/-- An orderly value; in a limited reading it has a text as well. -/
structure Legible (limited : Bool) (v : Json) : Prop where
  orderly : v.Orderly
  texted : limited = true → v.hasText = true

/-- Fields that are those of a legible object. -/
structure LegibleFields (limited : Bool) (fields : Fields) : Prop where
  orderly : OrderlyFields fields
  texted : limited = true → (Json.obj fields).hasText = true

variable {limited : Bool} {fuel : Nat} {cs rest : List Char} {v : Json} {items : List Json} {fields : Fields}

theorem Legible.scalar {k : Scalar} (text : limited = true → k.hasText = true) : Legible limited (.scalar k) :=
  ⟨.scalar k, text⟩

theorem Legible.arr (all : ∀ v ∈ items, Legible limited v) : Legible limited (.arr items) :=
  ⟨.arr fun v member => (all v member).orderly,
    fun is => all_arr_iff.mpr fun v member => (all v member).texted is⟩

theorem LegibleFields.obj (h : LegibleFields limited fields) : Legible limited (.obj fields) :=
  ⟨h.orderly.obj, h.texted⟩

theorem LegibleFields.nil : LegibleFields limited [] := ⟨.nil, fun _ => rfl⟩

theorem LegibleFields.put (h : LegibleFields limited fields) (key : Text) (given : Legible limited v) :
    LegibleFields limited (fields.put (.str key) v) := by
  refine ⟨h.orderly.put key given.orderly, fun is => all_obj_iff.mpr ?_⟩
  have before := all_obj_iff.mp (h.texted is)
  exact Table.forall_mem_put (p := fun k : Scalar => k.hasText = true) (q := fun v : Json => v.hasText = true)
    (k := .str key) rfl (given.texted is) before

theorem legible_readNumber (read : readNumber? cs = some (v, rest)) : ∃ k, v = .scalar k := by
  obtain ⟨⟨whole, behind⟩, _, same⟩ := Option.map_eq_some_iff.mp read
  simp only [numberFrom] at same
  split at same
  · cases same
    exact ⟨_, rfl⟩
  · cases same
    exact ⟨_, rfl⟩

theorem legible_readAtom (read : readAtom limited cs = .ok (v, rest)) : Legible limited v := by
  have words : ∀ e ∈ wordValues, Legible limited e.2 := by
    simp only [wordValues, List.forall_mem_cons]
    exact ⟨.scalar fun _ => rfl, .scalar fun _ => rfl, .scalar fun _ => rfl, .scalar fun _ => rfl, .scalar fun _ => rfl,
      .scalar fun _ => rfl, nofun⟩
  rw [readAtom] at read
  split at read
  case h_1 found =>
    cases read
    obtain ⟨e, member, same⟩ := List.exists_of_findSome?_eq_some found
    obtain ⟨_, _, same⟩ := Option.map_eq_some_iff.mp same
    cases same
    exact words e member
  case h_2 =>
    split at read
    case h_1 found =>
      split at read
      case isTrue => cases read
      case isFalse fits =>
        cases read
        obtain ⟨k, rfl⟩ := legible_readNumber found
        refine .scalar fun is => ?_
        rw [is, Bool.true_and, Bool.not_eq_true, Bool.not_eq_false'] at fits
        exact fits
    case h_2 => cases read

/-- With this much fuel a value is read as a legible one, a list as legible values, and legible fields of an object
are read on as legible ones. -/
structure ReadsLegible (limited : Bool) (fuel : Nat) : Prop where
  value : ∀ {cs v rest}, readValue limited fuel cs = .ok (v, rest) → Legible limited v
  items : ∀ {cs items rest}, readItems limited fuel cs = .ok (items, rest) → ∀ v ∈ items, Legible limited v
  fields : ∀ {before cs fields rest}, LegibleFields limited before →
    readFields limited fuel before cs = .ok (fields, rest) → LegibleFields limited fields

theorem ReadsLegible.value_succ (h : ReadsLegible limited fuel) (read : readValue limited (fuel + 1) cs = .ok (v, rest)) :
    Legible limited v := by
  unfold readValue at read
  split at read
  case h_1 =>
    obtain ⟨_, _, same⟩ := map_eq_ok_iff.mp read
    cases same
    exact .scalar fun _ => rfl
  case h_2 =>
    split at read
    case h_1 =>
      cases read
      exact .arr nofun
    case h_2 =>
      obtain ⟨_, inside, same⟩ := map_eq_ok_iff.mp read
      cases same
      exact .arr (h.items inside)
  case h_3 =>
    split at read
    case h_1 =>
      cases read
      exact LegibleFields.nil.obj
    case h_2 =>
      obtain ⟨_, inside, same⟩ := map_eq_ok_iff.mp read
      cases same
      exact (h.fields .nil inside).obj
  case h_4 => exact legible_readAtom read

theorem ReadsLegible.items_succ (h : ReadsLegible limited fuel)
    (read : readItems limited (fuel + 1) cs = .ok (items, rest)) : ∀ v ∈ items, Legible limited v := by
  unfold readItems at read
  split at read
  case h_1 => cases read
  case h_2 first =>
    split at read
    case h_1 =>
      cases read
      exact List.forall_mem_singleton.mpr (h.value first)
    case h_2 =>
      obtain ⟨_, others, same⟩ := map_eq_ok_iff.mp read
      cases same
      exact List.forall_mem_cons.mpr ⟨h.value first, h.items others⟩
    case h_3 => cases read

theorem ReadsLegible.fields_succ (h : ReadsLegible limited fuel) {before : Fields} (legible : LegibleFields limited before)
    (read : readFields limited (fuel + 1) before cs = .ok (fields, rest)) : LegibleFields limited fields := by
  unfold readFields at read
  split at read
  case h_2 => cases read
  case h_1 =>
    split at read
    case h_1 => cases read
    case h_2 =>
      split at read
      case h_2 => cases read
      case h_1 =>
        split at read
        case h_1 => cases read
        case h_2 given =>
          dsimp only at read
          split at read
          case h_1 =>
            cases read
            exact legible.put _ (h.value given)
          case h_2 => exact h.fields (legible.put _ (h.value given)) read
          case h_3 => cases read

theorem readsLegible (limited : Bool) (fuel : Nat) : ReadsLegible limited fuel := by
  induction fuel with
  | zero =>
      refine ⟨?_, ?_, ?_⟩
      · intro _ _ _ read
        cases read
      · intro _ _ _ read
        cases read
      · intro _ _ _ _ _ read
        cases read
  | succ fuel ih => exact ⟨ih.value_succ, ih.items_succ, ih.fields_succ⟩

theorem legible_of_readWith {text : String} (h : readWith limited text = .ok v) : Legible limited v := by
  have h := mapError_eq_ok_iff.mp h
  unfold readDocument at h
  split at h
  case h_1 => cases h
  case h_2 =>
    split at h
    case h_1 => cases h
    case h_2 first =>
      split at h
      case h_1 =>
        cases h
        exact (readsLegible limited _).value first
      case h_2 => cases h

theorem orderly_of_load {text : String} (h : load text = .ok v) : v.Orderly := (legible_of_readWith h).orderly

/-- What a text is loaded as is regular if it is whole, and then a checksum can be taken of it. -/
theorem regular_of_load {text : String} (h : load text = .ok v) (whole : v.isWhole = true) : v.Regular :=
  ⟨orderly_of_load h, whole⟩

theorem digestible_of_load {text : String} (h : load text = .ok v) (whole : v.isWhole = true) : v.Digestible :=
  ⟨(orderly_of_load h).textKeyed, (legible_of_readWith h).texted rfl, whole⟩

/-- A text that is not loaded for the digits of an integer. -/
def Overlong (text : String) : Prop := ∃ e, load text = .error e ∧ e.complaint = .digits

theorem not_overlong_of_load {text : String} (h : load text = .ok v) : ¬ Overlong text := by
  rintro ⟨e, refused, _⟩
  cases h.symm.trans refused

end ExprRegistry.Json
