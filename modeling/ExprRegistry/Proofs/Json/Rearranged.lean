import ExprRegistry.Proofs.Data.Pairing
import ExprRegistry.Proofs.Json.Parts

/-!
Values that differ at most in the order in which their objects list their keys. Main statements: being
rearranged is reflexive, symmetric and transitive.
-/

namespace ExprRegistry.Json

/-- The same value up to the order of keys: an object is what is found under its keys, so where a key
stands does not count. Lists keep their order. -/
inductive Rearranged : Json → Json → Prop
  | scalar (k : Scalar) : Rearranged (.scalar k) (.scalar k)
  | arr {items others : List Json} : List.Forall₂ Rearranged items others →
      Rearranged (.arr items) (.arr others)
  | obj {fields others : Fields} :
      (∀ key, Option.Rel Rearranged (Table.get? key fields) (Table.get? key others)) →
      Rearranged (.obj fields) (.obj others)

namespace Rearranged

variable {v w x : Json}

theorem refl (v : Json) : v.Rearranged v := by
  induction v using Json.induct with
  | scalar k => exact .scalar k
  | arr items ih => exact .arr (List.forall₂_same.mpr ih)
  | obj fields ih =>
      refine .obj fun key => ?_
      cases found : Table.get? key fields with
      | none => exact .none
      | some v => exact .some (ih key v found)

theorem symm (h : v.Rearranged w) : w.Rearranged v := by
  induction v using Json.induct generalizing w with
  | scalar k =>
      cases h
      exact .scalar k
  | arr items ih =>
      cases h with
      | arr related => exact .arr (forall₂_mono (fun v member w => ih v member) related).flip
  | obj fields ih =>
      cases h with
      | obj related => exact .obj fun key => rel_symm (fun v found w => ih key v found) (related key)

theorem trans (h : v.Rearranged w) (k : w.Rearranged x) : v.Rearranged x := by
  induction v using Json.induct generalizing w x with
  | scalar _ =>
      cases h
      exact k
  | arr items ih =>
      cases h with
      | arr related =>
          cases k with
          | arr further =>
              refine .arr (forall₂_trans (fun v member w x h k => ?_) related further)
              exact ih v member h k
  | obj fields ih =>
      cases h with
      | obj related =>
          cases k with
          | obj further =>
              refine .obj fun key => rel_trans (fun v found w x h k => ?_) (related key) (further key)
              exact ih key v found h k

variable {fields others : Fields}

theorem cons (k : Scalar) (first : v.Rearranged w) (rest : (Json.obj fields).Rearranged (Json.obj others)) :
    (Json.obj ((k, v) :: fields)).Rearranged (Json.obj ((k, w) :: others)) := by
  cases rest with
  | obj related =>
      refine .obj fun key => ?_
      rw [Table.get?_cons, Table.get?_cons]
      split
      case isTrue => exact .some first
      case isFalse => exact related key

/-- Entries with different keys can be listed in any order. -/
theorem of_perm (distinct : Table.Distinct fields) (same : others.Perm fields) :
    (Json.obj fields).Rearranged (Json.obj others) := by
  refine .obj fun key => ?_
  rw [distinct.get?_perm same]
  cases Table.get? key fields with
  | none => exact .none
  | some v => exact .some (refl v)

end Rearranged

end ExprRegistry.Json
