import ExprRegistry.Expr.Encode
import ExprRegistry.Proofs.Json.Parts

/-!
Values whose objects have texts for keys, as all values have that are read from the language of documents.
Main statement: the keys of such a value have an order, so it has a checksum exactly if it has a text that can be
encoded.
-/

namespace ExprRegistry.Json

/-- The keys of all objects in a value are texts. -/
inductive TextKeyed : Json → Prop
  | scalar (k : Scalar) : TextKeyed (.scalar k)
  | arr {items : List Json} (all : ∀ v ∈ items, TextKeyed v) : TextKeyed (.arr items)
  | obj {fields : Fields} (texts : ∀ e ∈ fields, e.1.isText = true) (all : ∀ e ∈ fields, TextKeyed e.2) :
      TextKeyed (.obj fields)

variable {v : Json} {items : List Json} {fields : Fields}

theorem Inside.textKeyed {w : Json} (within : Inside w v) (h : v.TextKeyed) : w.TextKeyed := by
  induction within with
  | self => exact h
  | item member _ ih =>
      cases h with
      | arr all => exact ih (all _ member)
  | entry member _ ih =>
      cases h with
      | obj _ all => exact ih (all _ member)

theorem TextKeyed.field {key : String} (h : TextKeyed (.obj fields)) (found : field? fields key = some v) :
    v.TextKeyed := (Inside.field found (.self v)).textKeyed h

theorem TextKeyed.fieldOrNull (h : TextKeyed (.obj fields)) (key : String) :
    (Json.fieldOrNull fields key).TextKeyed := by
  rw [Json.fieldOrNull]
  cases found : field? fields key with
  | none => exact .scalar .null
  | some v => exact h.field found

theorem TextKeyed.empty : TextKeyed (.obj []) := .obj nofun nofun

theorem TextKeyed.cons (name : String) (first : v.TextKeyed) (rest : TextKeyed (.obj fields)) :
    TextKeyed (.obj ((.str name, v) :: fields)) := by
  cases rest with
  | obj texts all => exact .obj (List.forall_mem_cons.mpr ⟨rfl, texts⟩) (List.forall_mem_cons.mpr ⟨first, all⟩)

/-! ### Sorting the keys -/

theorem sortItems_eq_ok (h : ∀ v ∈ items, ∃ w, v.sortKeys = .ok w) : ∃ sorted, sortItems items = .ok sorted := by
  induction items with
  | nil => exact ⟨[], rfl⟩
  | cons v items ih =>
      obtain ⟨w, first⟩ := h v List.mem_cons_self
      obtain ⟨sorted, others⟩ := ih fun x member => h x (List.mem_cons_of_mem v member)
      exact ⟨w :: sorted, by rw [sortItems, first, others]; rfl⟩

/-- The values are sorted inside, and the keys stay where they are. -/
theorem sortFields_eq_ok (h : ∀ e ∈ fields, ∃ w, e.2.sortKeys = .ok w) :
    ∃ sorted, sortFields fields = .ok sorted ∧ sorted.map Prod.fst = fields.map Prod.fst := by
  induction fields with
  | nil => exact ⟨[], rfl, rfl⟩
  | cons e fields ih =>
      obtain ⟨w, first⟩ := h e List.mem_cons_self
      obtain ⟨sorted, others, keys⟩ := ih fun x member => h x (List.mem_cons_of_mem e member)
      refine ⟨(e.1, w) :: sorted, ?_, by rw [List.map_cons, List.map_cons, keys]⟩
      rw [sortFields, first, others]
      rfl

theorem sortBy_eq_ok {α : Type} {name : α → Scalar} {entries : List α}
    (texts : ∀ k ∈ entries.map name, k.isText = true) :
    ∃ sorted, Scalar.sortBy name entries = .ok sorted ∧ sorted.Perm entries := by
  have ordered : Scalar.areOrdered (entries.map name) = true := by
    rw [Scalar.areOrdered, List.all_eq_true.mpr texts, Bool.true_or, Bool.true_or]
  exact ⟨_, by rw [Scalar.sortBy, if_pos ordered], List.mergeSort_perm _ _⟩

theorem TextKeyed.sortKeys_eq_ok (h : v.TextKeyed) : ∃ sorted, v.sortKeys = .ok sorted := by
  induction h with
  | scalar k => exact ⟨.scalar k, rfl⟩
  | arr _ ih =>
      obtain ⟨sorted, inside⟩ := sortItems_eq_ok ih
      exact ⟨.arr sorted, by rw [sortKeys, inside]; rfl⟩
  | obj texts _ ih =>
      obtain ⟨sorted, inside, keys⟩ := sortFields_eq_ok ih
      have texts : ∀ k ∈ sorted.map Prod.fst, k.isText = true := by
        rw [keys]
        exact List.forall_mem_map.mpr texts
      obtain ⟨fields, ordered, _⟩ := sortBy_eq_ok texts
      refine ⟨.obj fields, ?_⟩
      simp only [sortKeys, inside, ordered, bind, Except.bind]
      rfl

/-! ### Checksums -/

/-- A value that a checksum can be taken of: its keys have an order, it has a text, and that can be encoded. -/
structure Digestible (v : Json) : Prop where
  keyed : v.TextKeyed
  texted : v.hasText = true
  whole : v.isWhole = true

/-- What keeps a value from being written and encoded: an integer of too many digits, or a half of a character. -/
inductive Unwritable (v : Json) : Unfit → Prop
  | overlong (none : v.hasText = false) : Unwritable v .value
  | torn (texted : v.hasText = true) (torn : v.isWhole = false) : Unwritable v .encoding

theorem Inside.digestible {w : Json} (within : Inside w v) (h : v.Digestible) : w.Digestible :=
  ⟨within.textKeyed h.keyed, within.all h.texted, within.all h.whole⟩

theorem digestible_null : Digestible .null := ⟨.scalar .null, rfl, rfl⟩

theorem TextKeyed.digestible_or_unwritable (h : v.TextKeyed) : v.Digestible ∨ ∃ how, v.Unwritable how := by
  cases texted : v.hasText with
  | false => exact .inr ⟨_, .overlong texted⟩
  | true =>
      cases whole : v.isWhole with
      | false => exact .inr ⟨_, .torn texted whole⟩
      | true => exact .inl ⟨h, texted, whole⟩

theorem Digestible.checksum_eq_ok (h : v.Digestible) : ∃ digest, v.checksum = .ok digest := by
  obtain ⟨sorted, ordered⟩ := h.keyed.sortKeys_eq_ok
  refine ⟨Sha256.hexDigest (sorted.render .canonical).toUTF8.toList, ?_⟩
  simp only [checksum, canonicalText, ordered, h.texted, h.whole, bind, Except.bind]
  rfl

theorem TextKeyed.checksum_eq_error {how : Unfit} (h : v.TextKeyed) (none : v.Unwritable how) :
    v.checksum = .error how := by
  obtain ⟨sorted, ordered⟩ := h.sortKeys_eq_ok
  rcases none with overlong | ⟨texted, torn⟩
  · simp only [checksum, canonicalText, ordered, overlong, bind, Except.bind]
    rfl
  · simp only [checksum, canonicalText, ordered, texted, torn, bind, Except.bind]
    rfl

theorem TextKeyed.exists_checksum_iff (h : v.TextKeyed) :
    (∃ digest, v.checksum = .ok digest) ↔ v.hasText = true ∧ v.isWhole = true := by
  constructor
  · rintro ⟨digest, digested⟩
    rcases h.digestible_or_unwritable with digestible | ⟨how, none⟩
    · exact ⟨digestible.texted, digestible.whole⟩
    · cases (h.checksum_eq_error none).symm.trans digested
  · rintro ⟨texted, whole⟩
    exact Digestible.checksum_eq_ok ⟨h, texted, whole⟩

end ExprRegistry.Json
