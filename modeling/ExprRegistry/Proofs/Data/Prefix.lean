import Mathlib.Data.List.Chain
import Mathlib.Data.List.Infix
import Mathlib.Data.List.Nodup
import Mathlib.Data.List.Perm.Subperm

/-!
Lists of paths that hold the prefixes of their paths: the nodes of a tree. The prefixes of a longest path are
all of them when the tree does not fork, and only then.
-/

namespace ExprRegistry

variable {α : Type} {paths : List (List α)} {deepest : List α}

/-- One step further. -/
def Extends (path next : List α) : Prop := ∃ a, next = path ++ [a]

theorem nodup_inits (path : List α) : path.inits.Nodup := by
  induction path with
  | nil => simp
  | cons a rest ih =>
      rw [List.inits_cons, List.nodup_cons]
      exact ⟨by simp, ih.map List.cons_injective⟩

theorem isChain_inits (path : List α) : path.inits.IsChain Extends := by
  induction path with
  | nil => exact .singleton []
  | cons a rest ih =>
      rw [List.inits_cons, List.isChain_cons]
      refine ⟨fun next first => ?_, (List.isChain_map _).mpr (ih.imp ?_)⟩
      · cases rest <;> cases first <;> exact ⟨a, rfl⟩
      · rintro p q ⟨b, rfl⟩
        exact ⟨b, rfl⟩

theorem exists_mem_of_isChain {start : List α} {rest : List (List α)}
    (linked : (start :: rest).IsChain Extends) :
    ∃ last ∈ start :: rest, last.length = start.length + rest.length := by
  induction rest generalizing start with
  | nil => exact ⟨start, List.mem_cons_self, rfl⟩
  | cons next rest ih =>
      obtain ⟨⟨a, rfl⟩, others⟩ := List.isChain_cons_cons.mp linked
      obtain ⟨last, member, length⟩ := ih others
      refine ⟨last, List.mem_cons_of_mem _ member, ?_⟩
      rw [length, List.length_append, List.length_singleton, List.length_cons]
      omega

theorem inits_subset (closed : ∀ p q, p ++ q ∈ paths → p ∈ paths) (member : deepest ∈ paths) :
    deepest.inits ⊆ paths := by
  intro p front
  obtain ⟨q, rfl⟩ := (List.mem_inits p deepest).mp front
  exact closed p q member

theorem length_lt_of_closed (closed : ∀ p q, p ++ q ∈ paths → p ∈ paths) (member : deepest ∈ paths) :
    deepest.length < paths.length := by
  have inside := List.subperm_of_subset (nodup_inits deepest) (inits_subset closed member)
  rw [← Nat.succ_le_iff, Nat.succ_eq_add_one, ← List.length_inits]
  exact inside.length_le

/-- Where no path goes on in two ways, all paths are on the way to the longest one. -/
theorem prefix_of_unforked (closed : ∀ p q, p ++ q ∈ paths → p ∈ paths) (member : deepest ∈ paths)
    (longest : ∀ p ∈ paths, p.length ≤ deepest.length)
    (unforked : ∀ p a b, p ++ [a] ∈ paths → p ++ [b] ∈ paths → a = b) {path : List α}
    (h : path ∈ paths) : path <+: deepest := by
  induction path using List.reverseRecOn with
  | nil => exact List.nil_prefix
  | append_singleton p a ih =>
      obtain ⟨rest, rfl⟩ := ih (closed p [a] h)
      cases rest with
      | nil =>
          have short := longest (p ++ [a]) h
          rw [List.append_nil, List.length_append, List.length_singleton] at short
          omega
      | cons b rest =>
          have onward : p ++ [b] ∈ paths := closed (p ++ [b]) rest (by simpa using member)
          rw [unforked p a b h onward]
          exact ⟨rest, by simp⟩

/-- There are as many paths as the longest one has prefixes exactly when no path goes on in two ways. -/
theorem length_eq_iff_unforked (nodup : paths.Nodup) (closed : ∀ p q, p ++ q ∈ paths → p ∈ paths)
    (member : deepest ∈ paths) (longest : ∀ p ∈ paths, p.length ≤ deepest.length) :
    deepest.length + 1 = paths.length ↔ ∀ p a b, p ++ [a] ∈ paths → p ++ [b] ∈ paths → a = b := by
  have inside := List.subperm_of_subset (nodup_inits deepest) (inits_subset closed member)
  constructor
  · intro equal p a b left right
    have all := inside.perm_of_length_le (by rw [List.length_inits, equal])
    have front (q : List α) (h : q ∈ paths) : q <+: deepest :=
      (List.mem_inits q deepest).mp (all.mem_iff.mpr h)
    have same := List.prefix_of_prefix_length_le (front _ left) (front _ right) (by simp)
    simpa using same.eq_of_length (by simp)
  · intro unforked
    have back : paths ⊆ deepest.inits := fun p h =>
      (List.mem_inits p deepest).mpr (prefix_of_unforked closed member longest unforked h)
    have all := inside.antisymm (List.subperm_of_subset nodup back)
    rw [← List.length_inits, all.length_eq]

end ExprRegistry
