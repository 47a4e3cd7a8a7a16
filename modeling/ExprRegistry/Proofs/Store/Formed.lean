import ExprRegistry.Proofs.Json.TextKeyed
import ExprRegistry.Proofs.Store.Export

/-!
What the format of index documents is good for. In a whole document whose keys are texts a fault can always be told to
be the first, and a document without a fault holds records that all can be read. Main statement: a record that has the
format is that of a package with a text for its name and texts for its dependencies.
-/

namespace ExprRegistry

/-- A package as the format of index documents admits it, without halves of characters. -/
structure Package.Formed (p : Package) : Prop where
  named : ∃ text, p.name = .str text
  textual : p.Textual
  dependencies : (Json.obj p.dependencies).isWhole = true
  title : p.title.isWhole = true

namespace Json

variable {v w : Json} {fields : Fields}

theorem isText_of_requirementFault? (h : v.requirementFault? = none) : v.isText = true := by
  rw [requirementFault?.eq_def] at h
  split at h
  case h_1 => rfl
  case h_2 => cases h

theorem isCaption_of_captionFault? (h : v.captionFault? = none) : v.IsCaption := by
  rw [captionFault?.eq_def] at h
  split at h
  case h_1 => exact .inl rfl
  case h_2 => exact .inr rfl
  case h_3 => cases h

theorem isText_of_nameFault? (h : v.nameFault? = none) : v.isText = true := by
  rw [nameFault?.eq_def] at h
  split at h
  case h_1 => cases h
  case h_2 => rfl
  case h_3 => cases h

theorem isWhole_fieldOrNull (whole : (obj fields).isWhole = true) (key : String) :
    (Json.fieldOrNull fields key).isWhole = true := by
  rcases inside_fieldOrNull fields key with null | inside
  · rw [null]
    rfl
  · exact inside.all whole

theorem exists_of_versionsFault? (h : v.versionsFault? = none) : ∃ items, v = .arr items := by
  rw [versionsFault?.eq_def] at h
  split at h
  case h_1 items => exact ⟨items, rfl⟩
  case h_2 => cases h

theorem fieldFault?_eq_none {key : String} {fault? : Json → Option FormatComplaint}
    (h : fieldFault? fields key fault? = none) (found : field? fields key = some w) : fault? w = none := by
  rw [fieldFault?, found, Option.bind_some, Option.map_eq_none_iff] at h
  exact h

/-- No key is null where all are texts, so all faults are sorted by their keys. -/
theorem dependenciesFault?_eq_ok (h : v.TextKeyed) : ∃ first, v.dependenciesFault? = .ok first ∧
    (first = none → ∃ fields, v = .obj fields ∧ Fields.AreTexts fields) := by
  cases h with
  | scalar k => exact ⟨_, rfl, nofun⟩
  | arr _ => exact ⟨_, rfl, nofun⟩
  | @obj fields texts _ =>
      rw [dependenciesFault?, List.partition_eq_filter_filter]
      generalize listed : fields.filterMap _ = faults
      have keys : ∀ f ∈ faults, f.1.isText = true := by
        intro f member
        rw [← listed] at member
        obtain ⟨e, given, same⟩ := List.mem_filterMap.mp member
        obtain ⟨c, _, rfl⟩ := Option.map_eq_some_iff.mp same
        exact texts e given
      have unnamed : faults.filter (fun f => decide (f.1 = .null)) = [] := by
        rw [List.filter_eq_nil_iff]
        intro f member null
        have text := keys f member
        rw [of_decide_eq_true null] at text
        cases text
      have named : faults.filter (not ∘ fun f => decide (f.1 = .null)) = faults := by
        rw [List.filter_eq_self]
        intro f member
        exact (Bool.not_eq_true' _).mpr (eq_false_of_ne_true (List.filter_eq_nil_iff.mp unnamed f member))
      obtain ⟨sorted, ordered, same⟩ := sortBy_eq_ok (List.forall_mem_map.mpr keys)
      simp only [unnamed, named, ordered, List.nil_append]
      refine ⟨_, rfl, fun none => ⟨fields, rfl, fun e member => ⟨texts e member, ?_⟩⟩⟩
      rw [List.head?_eq_none_iff.mp (Option.map_eq_none_iff.mp none), List.nil_perm] at same
      rw [same] at listed
      exact isText_of_requirementFault? (Option.map_eq_none_iff.mp (List.filterMap_eq_nil_iff.mp listed e member))

/-- What is known of the fields of a record that has no fault, its dependencies apart. -/
structure Faultless (fields : Fields) : Prop where
  named : ∃ text, field? fields "name" = some (.str text)
  title : (Json.fieldOrNull fields "title").IsCaption
  description : (Json.fieldOrNull fields "description").IsCaption
  versions : ∃ items, (Json.fieldOrNull fields "versions").elementsIfGiven = .ok items

theorem isCaption_fieldOrNull {key : String} (h : fieldFault? fields key captionFault? = none) :
    (Json.fieldOrNull fields key).IsCaption := by
  rw [Json.fieldOrNull]
  cases found : field? fields key with
  | none => exact .inr rfl
  | some w => exact isCaption_of_captionFault? (fieldFault?_eq_none h found)

theorem faultless_of_eq_none {first : Option FormatFault} (whole : (obj fields).isWhole = true)
    (h : (if !hasField fields "name" then some ⟨[], .absent "name"⟩
      else
        first <|> fieldFault? fields "description" captionFault? <|> fieldFault? fields "name" nameFault? <|>
          fieldFault? fields "title" captionFault? <|> (field? fields "versions").bind versionsFault?) = none) :
    first = none ∧ Faultless fields := by
  split at h
  case isTrue => cases h
  case isFalse named =>
    simp only [Option.orElse_eq_orElse, Option.orElse_eq_or, Option.or_eq_none_iff] at h
    obtain ⟨none, description, name, title, versions⟩ := h
    refine ⟨none, ?_, isCaption_fieldOrNull title, isCaption_fieldOrNull description, ?_⟩
    · rw [Bool.not_eq_true, Bool.not_eq_false', hasField, Option.isSome_iff_exists] at named
      obtain ⟨w, found⟩ := named
      obtain ⟨t, rfl⟩ := exists_of_isText (isText_of_nameFault? (fieldFault?_eq_none name found))
      obtain ⟨text, rfl⟩ := Text.exists_of_isWhole (all_field whole found)
      exact ⟨text, found⟩
    · rw [Json.fieldOrNull]
      cases found : field? fields "versions" with
      | none => exact ⟨[], rfl⟩
      | some w =>
          rw [found] at versions
          obtain ⟨items, rfl⟩ := exists_of_versionsFault? versions
          exact ⟨items, elementsIfGiven_arr items⟩

theorem Faultless.exists_package (h : Faultless fields) (whole : (obj fields).isWhole = true) (own : Fields)
    (texts : Fields.AreTexts own) (wholeOwn : (obj own).isWhole = true)
    (dependencies : (Json.fieldOrNull fields "dependencies").entriesIfGiven = .ok own) :
    ∃ p, Package.ofJson (.obj fields) = .ok p ∧ p.Formed := by
  obtain ⟨text, named⟩ := h.named
  obtain ⟨items, versions⟩ := h.versions
  refine ⟨⟨.str text, own, items.map Release.ofJson, Json.fieldOrNull fields "title",
    Json.fieldOrNull fields "description"⟩, ?_, ⟨text, rfl⟩, ⟨texts, h.title, h.description⟩, wholeOwn,
    isWhole_fieldOrNull whole "title"⟩
  simp only [Package.ofJson, Package.ofFields, versions, named, dependencies]

/-- A record without a fault is read, and what it is read as is formed. -/
theorem packageFault?_eq_ok (h : v.TextKeyed) (whole : v.isWhole = true) : ∃ first, v.packageFault? = .ok first ∧
    (first = none → ∃ p, Package.ofJson v = .ok p ∧ p.Formed) := by
  cases v with
  | scalar k => exact ⟨_, rfl, fun none => absurd none (Option.some_ne_none _)⟩
  | arr items => exact ⟨_, rfl, fun none => absurd none (Option.some_ne_none _)⟩
  | obj fields =>
      cases found : field? fields "dependencies" with
      | none =>
          simp only [packageFault?, found]
          refine ⟨_, rfl, fun none => ?_⟩
          obtain ⟨_, faultless⟩ := faultless_of_eq_none whole none
          refine faultless.exists_package whole [] (List.forall_mem_nil _) rfl ?_
          rw [Json.fieldOrNull, found]
          rfl
      | some w =>
          obtain ⟨first, told, texts⟩ := dependenciesFault?_eq_ok (h.field found)
          simp only [packageFault?, found, told]
          refine ⟨_, rfl, fun none => ?_⟩
          obtain ⟨none, faultless⟩ := faultless_of_eq_none whole none
          obtain ⟨own, rfl, areTexts⟩ := texts none
          refine faultless.exists_package whole own areTexts (all_field whole found) ?_
          rw [Json.fieldOrNull, found]
          exact entriesIfGiven_obj own

theorem packagesFault?_eq_ok (packages : List Json) (index : Nat) (h : ∀ v ∈ packages, v.TextKeyed)
    (whole : ∀ v ∈ packages, v.isWhole = true) :
    ∃ first, packagesFault? index packages = .ok first ∧
      (first = none → ∀ v ∈ packages, ∃ p, Package.ofJson v = .ok p ∧ p.Formed) := by
  induction packages generalizing index with
  | nil => exact ⟨none, rfl, fun _ => List.forall_mem_nil _⟩
  | cons v packages ih =>
      obtain ⟨first, told, formed⟩ := packageFault?_eq_ok (h v List.mem_cons_self) (whole v List.mem_cons_self)
      obtain ⟨later, toldLater, formedLater⟩ := ih (index + 1) (fun w member => h w (List.mem_cons_of_mem v member))
        fun w member => whole w (List.mem_cons_of_mem v member)
      simp only [packagesFault?, told, toldLater]
      refine ⟨_, rfl, fun none => ?_⟩
      simp only [Option.orElse_eq_orElse, Option.orElse_eq_or, Option.or_eq_none_iff, Option.map_eq_none_iff] at none
      exact List.forall_mem_cons.mpr ⟨formed none.1, formedLater none.2⟩

/-- A whole document with texts for keys has a first fault or none, and where it has none its records are read. -/
theorem indexFault?_eq_ok (h : v.TextKeyed) (whole : v.isWhole = true) : ∃ first, v.indexFault? = .ok first ∧
    (first = none → ∀ record ∈ v.indexEntries, ∃ p, Package.ofJson record = .ok p ∧ p.Formed) := by
  cases v with
  | scalar k => exact ⟨_, rfl, nofun⟩
  | arr items => exact ⟨_, rfl, nofun⟩
  | obj fields =>
      cases found : field? fields "packages" with
      | none =>
          simp only [indexFault?, found]
          exact ⟨_, rfl, nofun⟩
      | some w =>
          simp only [indexFault?, found, indexEntries]
          cases w with
          | scalar k => exact ⟨_, rfl, nofun⟩
          | obj _ => exact ⟨_, rfl, nofun⟩
          | arr packages =>
              cases h.field found with
              | arr all => exact packagesFault?_eq_ok packages 0 all (all_arr_iff.mp (all_field whole found))

end Json

end ExprRegistry
