import ExprRegistry.Version.Basic

/-!
Precedence as an order. Each part of a version is compared in a way that is oriented and transitive, so
precedence is a total preorder on versions. It is no order on texts of versions: versions that differ
only in their build metadata are equal in it.
-/

namespace ExprRegistry.Version

open Std

theorem compareIdentifiers_swap (a b : String) :
    compareIdentifiers a b = (compareIdentifiers b a).swap := by
  cases ha : isNumeric a <;> cases hb : isNumeric b <;> simp only [compareIdentifiers, ha, hb]
  · exact OrientedOrd.eq_swap
  · rfl
  · rfl
  · exact OrientedOrd.eq_swap

instance : OrientedCmp compareIdentifiers where
  eq_swap := compareIdentifiers_swap _ _

instance : TransCmp compareIdentifiers where
  isLE_trans {a b c} hab hbc := by
    cases ha : isNumeric a <;> cases hb : isNumeric b <;> cases hc : isNumeric c <;>
      simp only [compareIdentifiers, ha, hb, hc] at *
    all_goals first | exact TransOrd.isLE_trans hab hbc | contradiction | rfl

theorem compareLists_eq (a b : List String) :
    compareLists a b = List.compareLex compareIdentifiers a b := by
  induction a generalizing b with
  | nil => cases b <;> rfl
  | cons x a ih =>
      cases b with
      | nil => rfl
      | cons y b => rw [compareLists, List.compareLex_cons_cons, ih]

instance : TransCmp compareLists := by
  rw [show compareLists = List.compareLex compareIdentifiers from funext fun a => funext (compareLists_eq a)]
  infer_instance

theorem comparePrereleases_swap (a b : List String) :
    comparePrereleases a b = (comparePrereleases b a).swap := by
  cases a <;> cases b
  · rfl
  · rfl
  · rfl
  · exact @OrientedCmp.eq_swap _ compareLists _ _ _

instance : OrientedCmp comparePrereleases where
  eq_swap := comparePrereleases_swap _ _

instance : TransCmp comparePrereleases where
  isLE_trans {a b c} hab hbc := by
    cases a <;> cases b <;> cases c
    case cons.cons.cons => exact @TransCmp.isLE_trans _ compareLists _ _ _ _ hab hbc
    all_goals first
      | exact hbc
      | rfl
      | exact absurd hab Bool.false_ne_true
      | exact absurd hbc Bool.false_ne_true

theorem precedence_eq_compareLex :
    precedence = compareLex (compareOn major) (compareLex (compareOn minor)
      (compareLex (compareOn patch) fun a b => comparePrereleases a.prerelease b.prerelease)) := rfl

instance : TransCmp precedence := by
  have : TransCmp fun a b : Version => comparePrereleases a.prerelease b.prerelease :=
    { eq_swap := OrientedCmp.eq_swap, isLE_trans := TransCmp.isLE_trans }
  rw [precedence_eq_compareLex]
  infer_instance

end ExprRegistry.Version
