import ExprRegistry.Expr.Name

/-!
Names inside expressions, as they are described. Main statements: the readers of names accept exactly the
names that the descriptions allow.
-/

namespace ExprRegistry

/-- A letter or an underscore, and then letters, digits and underscores. -/
def IsParameter (name : String) : Prop :=
  ∃ c rest, name.toList = c :: rest ∧ isNameStart c = true ∧ ∀ d ∈ rest, isNameChar d = true

/-- A name that could be a parameter, or such a name with a question mark at its end. -/
def IsReference (name : String) : Prop :=
  ∃ stem, IsParameter stem ∧ (name = stem ∨ name = stem ++ "?")

theorem isParameterName_iff {name : String} : isParameterName name = true ↔ IsParameter name := by
  rw [isParameterName, IsParameter]
  cases name.toList with
  | nil => simp
  | cons c rest =>
      rw [Bool.and_eq_true, List.all_eq_true]
      constructor
      · rintro ⟨start, all⟩
        exact ⟨c, rest, rfl, start, all⟩
      · rintro ⟨_, _, same, start, all⟩
        cases same
        exact ⟨start, all⟩

theorem isReferenceTail_iff {cs : List Char} :
    isReferenceTail cs = true ↔
      ∃ body, (∀ c ∈ body, isNameChar c = true) ∧ (cs = body ∨ cs = body ++ ['?']) := by
  fun_induction isReferenceTail cs with
  | case1 => exact ⟨fun _ => ⟨[], by simp⟩, fun _ => rfl⟩
  | case2 => exact ⟨fun _ => ⟨[], by simp⟩, fun _ => rfl⟩
  | case3 c rest different ih =>
      rw [Bool.and_eq_true, ih]
      constructor
      · rintro ⟨first, body, all, ends⟩
        refine ⟨c :: body, List.forall_mem_cons.mpr ⟨first, all⟩, ends.imp ?_ ?_⟩
        · rintro rfl; rfl
        · rintro rfl; rfl
      · rintro ⟨body, all, ends⟩
        cases body with
        | nil =>
            rcases ends with ends | ends
            · cases ends
            · cases ends
              exact absurd rfl (different rfl)
        | cons d body =>
            obtain ⟨first, later⟩ := List.forall_mem_cons.mp all
            rcases ends with ends | ends
            · cases ends
              exact ⟨first, rest, later, .inl rfl⟩
            · cases ends
              exact ⟨first, body, later, .inr rfl⟩

theorem isReferenceName_iff {name : String} : isReferenceName name = true ↔ IsReference name := by
  rw [isReferenceName]
  constructor
  · intro h
    split at h
    case h_1 => cases h
    case h_2 c rest written =>
      obtain ⟨start, tail⟩ := Bool.and_eq_true_iff.mp h
      obtain ⟨body, all, ends⟩ := isReferenceTail_iff.mp tail
      refine ⟨String.ofList (c :: body), ⟨c, body, String.toList_ofList, start, all⟩, ?_⟩
      rw [← String.toList_inj, ← String.toList_inj, written, String.toList_append, String.toList_ofList]
      exact ends.imp (congrArg (c :: ·)) (congrArg (c :: ·))
  · rintro ⟨stem, ⟨c, body, written, start, all⟩, ends⟩
    have spelled : name.toList = c :: body ∨ name.toList = c :: (body ++ ['?']) := by
      refine ends.imp ?_ ?_
      · rintro rfl; exact written
      · rintro rfl
        rw [String.toList_append, written]
        rfl
    have tail (cs : List Char) (h : cs = body ∨ cs = body ++ ['?']) : isReferenceTail cs = true :=
      isReferenceTail_iff.mpr ⟨body, all, h⟩
    rcases spelled with spelled | spelled
    · rw [spelled]
      exact Bool.and_eq_true_iff.mpr ⟨start, tail body (.inl rfl)⟩
    · rw [spelled]
      exact Bool.and_eq_true_iff.mpr ⟨start, tail _ (.inr rfl)⟩

end ExprRegistry
