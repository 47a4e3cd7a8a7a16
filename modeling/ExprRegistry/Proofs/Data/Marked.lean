import Mathlib.Data.List.Basic

/-!
Texts that are made of marked words: a mark starts every word and stands nowhere else in it. Main statement:
such a text tells its words.
-/

namespace ExprRegistry

variable {α : Type} {M : α → Prop}

/-- A word that starts with a mark and has no other mark. -/
def Marked (M : α → Prop) (word : List α) : Prop :=
  ∃ mark rest, word = mark :: rest ∧ M mark ∧ ∀ x ∈ rest, ¬ M x

theorem append_inj_of_marks {xs ys us vs : List α} (hx : ∀ x ∈ xs, ¬ M x) (hy : ∀ y ∈ ys, ¬ M y)
    (hu : ∀ u ∈ us.head?, M u) (hv : ∀ v ∈ vs.head?, M v) (h : xs ++ us = ys ++ vs) :
    xs = ys ∧ us = vs := by
  induction xs generalizing ys with
  | nil =>
      cases ys with
      | nil => exact ⟨rfl, h⟩
      | cons y ys =>
          rw [List.nil_append] at h
          exact absurd (hu y (by rw [h]; rfl)) (hy y List.mem_cons_self)
  | cons x xs ih =>
      cases ys with
      | nil =>
          rw [List.nil_append] at h
          exact absurd (hv x (by rw [← h]; rfl)) (hx x List.mem_cons_self)
      | cons y ys =>
          obtain ⟨first, later⟩ := List.cons.inj h
          obtain ⟨same, rest⟩ := ih (fun x member => hx x (List.mem_cons_of_mem _ member))
            (fun y member => hy y (List.mem_cons_of_mem _ member)) later
          exact ⟨by rw [first, same], rest⟩

theorem mark_of_head?_flatten {words : List (List α)} (h : ∀ word ∈ words, Marked M word) :
    ∀ x ∈ words.flatten.head?, M x := by
  cases words with
  | nil => exact nofun
  | cons word words =>
      obtain ⟨mark, rest, rfl, marks, _⟩ := h word List.mem_cons_self
      intro x first
      cases first
      exact marks

/-- A text of marked words tells the words. -/
theorem flatten_inj_of_marked {words others : List (List α)} (hw : ∀ word ∈ words, Marked M word)
    (ho : ∀ word ∈ others, Marked M word) (h : words.flatten = others.flatten) : words = others := by
  induction words generalizing others with
  | nil =>
      cases others with
      | nil => rfl
      | cons word others =>
          obtain ⟨mark, rest, rfl, _⟩ := ho word List.mem_cons_self
          cases h
  | cons word words ih =>
      obtain ⟨mark, rest, rfl, _, unmarked⟩ := hw word List.mem_cons_self
      cases others with
      | nil => cases h
      | cons word others =>
          obtain ⟨mark', rest', rfl, _, unmarked'⟩ := ho word List.mem_cons_self
          have laterW := fun word member => hw word (List.mem_cons_of_mem _ member)
          have laterO := fun word member => ho word (List.mem_cons_of_mem _ member)
          obtain ⟨sameMark, tails⟩ := List.cons.inj h
          obtain ⟨same, more⟩ := append_inj_of_marks unmarked unmarked' (mark_of_head?_flatten laterW)
            (mark_of_head?_flatten laterO) tails
          rw [sameMark, same, ih laterW laterO more]

theorem flatMap_inj_of_marked {β : Type} {word : β → List α} (inj : Function.Injective word)
    {as bs : List β} (ha : ∀ a ∈ as, Marked M (word a)) (hb : ∀ b ∈ bs, Marked M (word b))
    (h : as.flatMap word = bs.flatMap word) : as = bs := by
  rw [List.flatMap_def, List.flatMap_def] at h
  exact List.map_injective_iff.mpr inj
    (flatten_inj_of_marked (List.forall_mem_map.mpr ha) (List.forall_mem_map.mpr hb) h)

end ExprRegistry
