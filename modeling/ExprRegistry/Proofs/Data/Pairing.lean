import Mathlib.Data.List.Forall2

/-!
Lists whose elements are related pair by pair, and optional values that are both absent or both there and
related.
-/

namespace ExprRegistry

variable {α β γ : Type} {as : List α} {bs : List β}

theorem forall₂_mono {P Q : α → β → Prop} (le : ∀ a ∈ as, ∀ b, P a b → Q a b)
    (h : List.Forall₂ P as bs) : List.Forall₂ Q as bs :=
  ((List.forall₂_and_left _ _).mpr ⟨le, h⟩).imp fun _ _ both => both.1 _ both.2

theorem exists_of_forall₂ {P : α → β → Prop} (h : List.Forall₂ P as bs) : ∀ a ∈ as, ∃ b, P a b :=
  ((List.forall₂_and_left _ _).mp (h.imp fun _ b related => ⟨⟨b, related⟩, related⟩)).1

theorem eq_of_forall₂ {P : α → α → Prop} {bs : List α} (each : ∀ a ∈ as, ∀ b, P a b → a = b)
    (h : List.Forall₂ P as bs) : as = bs := by
  have same := forall₂_mono each h
  rwa [List.forall₂_eq_eq_eq] at same

theorem forall_mem_iff_of_forall₂ {R : α → β → Prop} {P : α → Prop} {Q : β → Prop}
    (agree : ∀ a b, R a b → (P a ↔ Q b)) (h : List.Forall₂ R as bs) :
    (∀ a ∈ as, P a) ↔ ∀ b ∈ bs, Q b := by
  induction h with
  | nil => exact ⟨fun _ => nofun, fun _ => nofun⟩
  | cons related _ ih => rw [List.forall_mem_cons, List.forall_mem_cons, agree _ _ related, ih]

theorem exists_forall₂ {P : α → β → Prop} (h : ∀ a ∈ as, ∃ b, P a b) : ∃ bs, List.Forall₂ P as bs := by
  induction as with
  | nil => exact ⟨[], .nil⟩
  | cons a rest ih =>
      obtain ⟨b, first⟩ := h a List.mem_cons_self
      obtain ⟨bs, others⟩ := ih fun c member => h c (List.mem_cons_of_mem a member)
      exact ⟨b :: bs, .cons first others⟩

theorem exists_forall₂_both {P : α → β → Prop} {Q : β → α → Prop}
    (h : ∀ a ∈ as, ∃ b, P a b ∧ Q b a) : ∃ bs, List.Forall₂ P as bs ∧ List.Forall₂ Q bs as := by
  obtain ⟨bs, both⟩ := exists_forall₂ h
  exact ⟨bs, both.imp fun _ _ => And.left, (both.imp fun _ _ => And.right).flip⟩

/-- Two lists that are related through something in between are so through one list. -/
theorem exists_forall₂_between {P : β → γ → Prop} {Q : γ → α → Prop}
    (h : List.Forall₂ (fun a b => ∃ c, P b c ∧ Q c a) as bs) :
    ∃ cs, List.Forall₂ P bs cs ∧ List.Forall₂ Q cs as := by
  induction h with
  | nil => exact ⟨[], .nil, .nil⟩
  | cons first _ ih =>
      obtain ⟨c, left, right⟩ := first
      obtain ⟨cs, lefts, rights⟩ := ih
      exact ⟨c :: cs, .cons left lefts, .cons right rights⟩

theorem forall₂_trans {P : α → β → Prop} {Q : β → γ → Prop} {R : α → γ → Prop} {cs : List γ}
    (step : ∀ a ∈ as, ∀ b c, P a b → Q b c → R a c) (h : List.Forall₂ P as bs)
    (k : List.Forall₂ Q bs cs) : List.Forall₂ R as cs := by
  induction h generalizing cs with
  | nil =>
      cases k
      exact .nil
  | @cons a b as bs first _ ih =>
      cases k with
      | cons second rest =>
          refine .cons (step a List.mem_cons_self b _ first second) (ih ?_ rest)
          exact fun x member => step x (List.mem_cons_of_mem a member)

theorem map_eq_self_iff {f : α → α} : as.map f = as ↔ ∀ a ∈ as, f a = a := by
  conv_lhs => rhs; rw [← List.map_id as]
  exact List.map_inj_left

theorem map_eq_self_of_forall₂ {P : α → β → Prop} {f : α → α} (h : List.Forall₂ P as bs)
    (each : ∀ a ∈ as, ∀ b, P a b → f a = a) : as.map f = as := by
  refine map_eq_self_iff.mpr fun a member => ?_
  obtain ⟨b, related⟩ := exists_of_forall₂ h a member
  exact each a member b related

theorem rel_symm {P : α → β → Prop} {Q : β → α → Prop} {a : Option α} {b : Option β}
    (turn : ∀ x, a = some x → ∀ y, P x y → Q y x) (h : Option.Rel P a b) : Option.Rel Q b a := by
  cases h with
  | none => exact .none
  | some h => exact .some (turn _ rfl _ h)

theorem rel_trans {P : α → β → Prop} {Q : β → γ → Prop} {R : α → γ → Prop} {a : Option α}
    {b : Option β} {c : Option γ} (step : ∀ x, a = some x → ∀ y z, P x y → Q y z → R x z)
    (h : Option.Rel P a b) (k : Option.Rel Q b c) : Option.Rel R a c := by
  cases h with
  | none =>
      cases k
      exact .none
  | some h =>
      cases k with
      | some k => exact .some (step _ rfl _ _ h k)

end ExprRegistry
