import ExprRegistry.Json.Basic
import ExprRegistry.Proofs.Data.Table

/-!
The parts of values: what stands in a list, and what is found under the keys of an object. Parts are smaller
than the value, so what holds of a value when it holds of its parts, holds of all values. Of the keys, texts are the
same only when they are equal.
-/

namespace ExprRegistry

theorem Scalar.eq_str_of_same {k : Scalar} {t : Text} (h : (k == .str t) = true) : k = .str t := by
  have same : k.representative = .str t := Scalar.same_iff.mp h
  cases k with
  | null => cases same
  | bool b => cases same
  | int n => cases same
  | str t => exact same
  | float x =>
      rw [Scalar.representative] at same
      split at same
      · cases same
      · split at same <;> cases same

theorem Scalar.exists_of_isText {k : Scalar} (h : k.isText = true) : ∃ t, k = .str t := by
  cases k with
  | str t => exact ⟨t, rfl⟩
  | _ => cases h

theorem Text.exists_of_isWhole {t : Text} (h : t.isWhole = true) : ∃ s, t = .whole s := by
  cases t with
  | whole s => exact ⟨s, rfl⟩
  | torn _ _ _ => cases h

/-- The strings are the whole texts. -/
theorem Scalar.isString_iff {k : Scalar} : k.isString = true ↔ k.isText = true ∧ k.isWhole = true := by
  cases k with
  | str t => cases t <;> exact ⟨fun h => ⟨rfl, h⟩, And.right⟩
  | _ => exact ⟨nofun, fun h => h.1⟩

theorem Scalar.exists_of_isString {k : Scalar} (h : k.isString = true) : ∃ s : String, k = .str s := by
  obtain ⟨t, rfl⟩ := exists_of_isText (isString_iff.mp h).1
  obtain ⟨s, rfl⟩ := Text.exists_of_isWhole (isString_iff.mp h).2
  exact ⟨s, rfl⟩

namespace Json

variable {fields : Fields} {key : String} {v : Json}

theorem exists_of_isText (h : v.isText = true) : ∃ t, v = .text t := by
  rw [isText.eq_def] at h
  split at h
  case h_1 t => exact ⟨t, rfl⟩
  case h_2 => cases h

theorem exists_of_isString (h : v.isString = true) : ∃ s, v = .str s := by
  rw [isString.eq_def] at h
  split at h
  case h_1 s => exact ⟨s, rfl⟩
  case h_2 => cases h

theorem isString_iff : v.isString = true ↔ v.isText = true ∧ v.isWhole = true := by
  cases v with
  | scalar k =>
      cases k with
      | str t => cases t <;> exact ⟨fun h => ⟨rfl, h⟩, And.right⟩
      | _ => exact ⟨nofun, fun h => h.1⟩
  | arr items => exact ⟨nofun, fun h => h.1⟩
  | obj fields => exact ⟨nofun, fun h => h.1⟩

theorem hasField_iff : hasField fields key = true ↔ ∃ v, field? fields key = some v :=
  Option.isSome_iff_exists

theorem field?_cons (key : String) (entry : Scalar × Json) (fields : Fields) :
    field? (entry :: fields) key = if entry.1 == .str key then some entry.2 else field? fields key :=
  Table.get?_cons _ entry fields

/-! ### Scalars in a value -/

variable {p : Scalar → Bool} {items : List Json}

theorem all_arr_iff : (arr items).all p = true ↔ ∀ v ∈ items, v.all p = true := by
  rw [all]
  induction items with
  | nil => exact iff_of_true rfl (List.forall_mem_nil _)
  | cons v items ih => rw [allItems, Bool.and_eq_true, ih, List.forall_mem_cons]

theorem all_obj_iff : (obj fields).all p = true ↔ ∀ e ∈ fields, p e.1 = true ∧ e.2.all p = true := by
  rw [all]
  induction fields with
  | nil => exact iff_of_true rfl (List.forall_mem_nil _)
  | cons e fields ih =>
      rw [allFields, Bool.and_eq_true, Bool.and_eq_true, ih, List.forall_mem_cons]

/-- A value that stands in another at any depth, or is that value itself. -/
inductive Inside : Json → Json → Prop
  | self (v : Json) : Inside v v
  | item {w v : Json} {items : List Json} (member : v ∈ items) (within : Inside w v) : Inside w (.arr items)
  | entry {w : Json} {e : Scalar × Json} {fields : Fields} (member : e ∈ fields) (within : Inside w e.2) :
      Inside w (.obj fields)

theorem Inside.field {w : Json} (found : field? fields key = some v) (within : Inside w v) : Inside w (.obj fields) := by
  obtain ⟨k, member, _⟩ := Table.mem_of_get? found
  exact .entry member within

theorem Inside.trans {u w : Json} (h : Inside u w) (within : Inside w v) : Inside u v := by
  induction within with
  | self => exact h
  | item member _ ih => exact .item member ih
  | entry member _ ih => exact .entry member ih

theorem inside_fieldOrNull (fields : Fields) (key : String) :
    fieldOrNull fields key = .null ∨ (fieldOrNull fields key).Inside (.obj fields) := by
  rw [fieldOrNull]
  cases found : field? fields key with
  | none => exact .inl rfl
  | some w => exact .inr (.field found (.self w))

theorem Inside.all {w : Json} (within : Inside w v) (h : v.all p = true) : w.all p = true := by
  induction within with
  | self => exact h
  | item member _ ih => exact ih (all_arr_iff.mp h _ member)
  | entry member _ ih => exact ih (all_obj_iff.mp h _ member).2

theorem all_field (h : (obj fields).all p = true) (found : field? fields key = some v) : v.all p = true :=
  (Inside.field found (.self v)).all h

/-! ### Sizes -/

theorem sizeOf_entry {entry : Scalar × Json} (h : entry ∈ fields) :
    sizeOf entry.2 < sizeOf (obj fields) := by
  have inside := List.sizeOf_lt_of_mem h
  rw [Prod.mk.sizeOf_spec] at inside
  rw [obj.sizeOf_spec]
  omega

theorem sizeOf_field (h : field? fields key = some v) : sizeOf v < sizeOf (obj fields) := by
  obtain ⟨k, member, _⟩ := Table.mem_of_get? h
  exact sizeOf_entry member

theorem sizeOf_item {items : List Json} (h : v ∈ items) : sizeOf v < sizeOf (arr items) := by
  have inside := List.sizeOf_lt_of_mem h
  rw [arr.sizeOf_spec]
  omega

/-- Induction on values. The items of a list and what is found in an object are parts like any other. -/
@[elab_as_elim]
theorem induct {motive : Json → Prop} (scalar : ∀ k, motive (.scalar k))
    (arr : ∀ items, (∀ v ∈ items, motive v) → motive (.arr items))
    (obj : ∀ fields, (∀ key v, Table.get? key fields = some v → motive v) → motive (.obj fields))
    (v : Json) : motive v := by
  have part (w : Json) (_ : sizeOf w < sizeOf v) : motive w := induct scalar arr obj w
  cases v with
  | scalar k => exact scalar k
  | arr items => exact arr items fun w member => part w (sizeOf_item member)
  | obj fields =>
      refine obj fields fun key w found => ?_
      obtain ⟨k, member, _⟩ := Table.mem_of_get? found
      exact part w (sizeOf_entry member)
termination_by sizeOf v

end Json

end ExprRegistry
