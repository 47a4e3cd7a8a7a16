import ExprRegistry.Text.Basic

/-!
Texts and their points. A text is told by its points, and these by their codes, so the order of codes is an order of
texts.
-/

namespace ExprRegistry.Text

/-- Characters are out of the way of halves. -/
theorem toNat_cases (c : Char) : c.toNat < 0xD800 ∨ 0xE000 ≤ c.toNat ∧ c.toNat < 0x110000 := by
  have valid := c.valid
  simp only [UInt32.isValidChar, Nat.isValidChar] at valid
  change c.toNat < _ ∨ _ < c.toNat ∧ c.toNat < _ at valid
  omega

theorem pointOf_toNat (c : Char) : pointOf c.toNat = .inl c := by
  have range := toNat_cases c
  rw [pointOf, dif_neg (by rw [firstHalf]; omega), Char.ofNat_toNat]

theorem code_inj {p q : Point} (same : code p = code q) : p = q := by
  cases p with
  | inl c =>
      cases q with
      | inl d => exact congrArg Sum.inl (Char.toNat_inj.mp same)
      | inr k =>
          have range := toNat_cases c
          simp only [code, firstHalf] at same
          omega
  | inr h =>
      cases q with
      | inl d =>
          have range := toNat_cases d
          simp only [code, firstHalf] at same
          omega
      | inr k =>
          simp only [code, firstHalf] at same
          exact congrArg Sum.inr (Fin.ext (by omega))

/-! ### A text from its points -/

theorem ofPointsAfter_append (before cs : List Char) (ps : List Point) :
    ofPointsAfter before (cs.map .inl ++ ps) = ofPointsAfter (cs.reverse ++ before) ps := by
  induction cs generalizing before with
  | nil => rfl
  | cons c cs ih =>
      rw [List.map_cons, List.cons_append, ofPointsAfter, ih, List.reverse_cons, List.append_assoc]
      rfl

theorem ofPoints_points (t : Text) : ofPoints t.points = t := by
  induction t with
  | whole s =>
      have read := ofPointsAfter_append [] s.toList []
      rw [List.append_nil, List.append_nil] at read
      rw [points, ofPoints, read, ofPointsAfter, List.reverse_reverse, String.ofList_toList]
  | torn front h rest ih =>
      rw [points, ofPoints, ofPointsAfter_append, ofPointsAfter, List.append_nil, List.reverse_reverse,
        String.ofList_toList]
      exact congrArg (torn front h) ih

theorem points_inj {s t : Text} (same : s.points = t.points) : s = t := by
  rw [← ofPoints_points s, same, ofPoints_points]

/-! ### The order of texts -/

theorem le_trans {s t u : Text} (h : s ≤ t) (k : t ≤ u) : s ≤ u := by
  change List.le _ _ at h k ⊢
  exact List.le_trans h k

theorem le_total (s t : Text) : s ≤ t ∨ t ≤ s := by
  change List.le _ _ ∨ List.le _ _
  exact List.le_total _ _

theorem le_antisymm {s t : Text} (h : s ≤ t) (k : t ≤ s) : s = t := by
  change List.le _ _ at h k
  have same : s.points.map code = t.points.map code := List.le_antisymm h k
  exact points_inj ((List.map_inj_right fun _ _ => code_inj).mp same)

end ExprRegistry.Text
