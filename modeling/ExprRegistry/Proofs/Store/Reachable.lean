import ExprRegistry.Proofs.Store.Sound
import Mathlib.Data.List.Induction

/-!
Every sound store can be built: its packages are created in their order, and after each of them its releases
are published in theirs. Main statement: the stores that operations build from nothing are the sound ones.
-/

namespace ExprRegistry

/-- The operations that publish releases of a package. -/
def publications (name : Json) (releases : List Release) : List Operation :=
  releases.map fun r => .addVersion name (.text r.version) r.data

/-- The operations that create a package and publish its releases. -/
def Package.operations (p : Package) : List Operation :=
  .create p.name (.obj p.dependencies) p.title p.description :: publications p.name p.releases

/-- The operations that build a store. -/
def Store.operations (store : Store) : List Operation := store.flatMap fun e => e.2.operations

theorem Json.entriesIfGiven_obj (fields : Fields) : (Json.obj fields).entriesIfGiven = .ok fields := by
  cases fields <;> rfl

namespace Store

variable {store : Store} {k : Scalar} {p : Package} {done rest : List Release}

theorem performAll_append (store : Store) (operations more : List Operation) :
    store.performAll (operations ++ more) = (store.performAll operations).performAll more :=
  List.foldl_append

theorem performAll_cons_of_effect {after : Store} {op : Operation} {answer : Answer}
    (effect : Effect store op after answer) (operations : List Operation) :
    store.performAll (op :: operations) = after.performAll operations := by
  rw [← (perform_of_effect effect).1]
  rfl

/-- The induction is on what is still to be published, so what is done grows by one release at each step. -/
theorem performAll_publications {entries : Fields} {title description : Json}
    (absent : Table.has k store = false) (distinct : ((done ++ rest).map (·.version)).Nodup)
    (published : ∀ r ∈ rest, r.Published) :
    Store.performAll (store ++ [(k, ⟨.scalar k, entries, done, title, description⟩)])
      (publications (.scalar k) rest) =
        store ++ [(k, ⟨.scalar k, entries, done ++ rest, title, description⟩)] := by
  induction rest generalizing done with
  | nil =>
      rw [List.append_nil]
      rfl
  | cons r rest ih =>
      have new : r.version ∉ done.map (·.version) := by
        rw [List.map_append] at distinct
        exact fun old => List.disjoint_of_nodup_append distinct old List.mem_cons_self
      have effect := (effect_addVersion_snoc_iff (p := ⟨.scalar k, entries, done, title, description⟩)
        absent).mpr ⟨r, rfl, rfl, published r List.mem_cons_self, new, rfl, rfl⟩
      rw [publications, List.map_cons, performAll_cons_of_effect effect]
      rw [List.append_cons done r rest] at distinct ⊢
      exact ih distinct fun r member => published r (List.mem_cons_of_mem _ member)

theorem performAll_package_operations (absent : Table.has k store = false) (named : p.name = .scalar k)
    (h : p.Sound) : store.performAll p.operations = store ++ [(k, p)] := by
  obtain ⟨name, entries, releases, title, description⟩ := p
  obtain ⟨⟨text, spelled, valid⟩, distinct, published⟩ := h
  cases named
  cases spelled
  have created : Effect store (.create (.str text) (.obj entries) title description) _ _ :=
    .create valid (Table.get?_eq_none_iff.mpr absent) (Json.entriesIfGiven_obj entries)
  rw [Package.operations, performAll_cons_of_effect created]
  exact performAll_publications absent distinct published

theorem Sound.of_append {more : Store} (h : Store.Sound (store ++ more)) : store.Sound := by
  refine ⟨(List.pairwise_append.mp h.distinct).1, ?_⟩
  exact fun e member => h.packages e (List.mem_append_left more member)

theorem performAll_operations (h : store.Sound) : Store.performAll [] store.operations = store := by
  induction store using List.reverseRecOn with
  | nil => rfl
  | append_singleton store e ih =>
      have absent : Table.has e.1 store = false := by
        rw [Table.has_eq_false_iff]
        intro x member
        exact (List.pairwise_append.mp h.distinct).2.2 x member e List.mem_cons_self
      obtain ⟨named, sound⟩ := h.packages e (List.mem_append_right store List.mem_cons_self)
      rw [Store.operations, List.flatMap_append, performAll_append, List.flatMap_singleton]
      rw [← Store.operations, ih h.of_append, performAll_package_operations absent named sound]

/-- The stores that operations build from nothing are the sound ones. -/
theorem exists_performAll_iff (store : Store) :
    (∃ operations, Store.performAll [] operations = store) ↔ store.Sound := by
  constructor
  · rintro ⟨operations, rfl⟩
    exact performAll_sound operations
  · intro sound
    exact ⟨store.operations, performAll_operations sound⟩

end Store

end ExprRegistry
