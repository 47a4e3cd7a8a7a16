import ExprRegistry.Proofs.Resolve.Completeness
import ExprRegistry.Proofs.Resolve.Growth

/-!
Trees beside flat resolution. A tree without failures is an unfolding in which each dependency selects a
version, so both go through the same names in the same order; flat resolution only keeps the first version
of each. Main statement: `dependencyTree_agrees`.
-/

namespace ExprRegistry

namespace Tree

mutual

/-- The names and versions of the packages of a tree, each before those below it. -/
def nodes : Tree → List (Json × String)
  | node name version _ children => (name, version) :: nodesAll children
  | failed _ _ _ => []

def nodesAll : List Tree → List (Json × String)
  | [] => []
  | t :: rest => nodes t ++ nodesAll rest

end

end Tree

namespace Lookup

variable {lookup : Lookup} {deps walk : Fields} {path : List Scalar} {pins : Table Scalar String}
  {name : Scalar} {requirement : Json}

/-- The trees of an unfolding in which each dependency selects a version have no failures, and show what is
selected. -/
theorem Unfolds.grows (hl : lookup.ByName) (u : lookup.Unfolds deps walk)
    (chosen : ∀ e ∈ walk, (lookup.choice e.1 e.2).isSome = true)
    (off : ∀ e ∈ walk, path.any (· == e.1) = false) (looked : List Json) :
    ∃ looked' trees entries, lookup.Grows path deps looked looked' trees ∧
      Tree.anyFailure trees = false ∧
      Tree.nodesAll trees = entries.map (fun e => (.scalar e.1, e.2)) ∧
      Table.Alike entries (lookup.choices walk) := by
  induction u generalizing path looked with
  | nil => exact ⟨looked, [], [], .done, rfl, rfl, .nil⟩
  | @cons name requirement rest package below after found u _ ihBelow ihAfter =>
      rw [List.forall_mem_cons, List.forall_mem_append] at chosen off
      obtain ⟨chosenHere, chosenBelow, chosenAfter⟩ := chosen
      obtain ⟨offHere, offBelow, offAfter⟩ := off
      obtain ⟨version, selected⟩ := Option.isSome_iff_exists.mp chosenHere
      obtain ⟨own, named, same⟩ := hl.name_eq found
      have offLonger : ∀ e ∈ below, (path ++ [name]).any (· == e.1) = false := by
        intro e member
        rw [any_snoc, offBelow e member, u.apart hl found e member, Bool.or_false]
      obtain ⟨mid, children, entriesBelow, grownBelow, soundBelow, nodesBelow, alikeBelow⟩ :=
        ihBelow chosenBelow offLonger (looked ++ [.scalar name])
      obtain ⟨looked', trees, entriesAfter, grownAfter, soundAfter, nodesAfter, alikeAfter⟩ :=
        ihAfter chosenAfter offAfter mid
      have entered := step_eq_enter_of_choice offHere (Table.get?_nil name) found selected
      refine ⟨looked', _, (own, version) :: (entriesBelow ++ entriesAfter),
        .enter entered grownBelow grownAfter, ?_, ?_, ?_⟩
      · rw [Tree.anyFailure, Tree.hasFailure, soundBelow, soundAfter, Bool.or_false]
      · rw [Tree.nodesAll, Tree.nodes, named, nodesBelow, nodesAfter, List.map_cons, List.map_append]
        rfl
      · rw [choices_cons selected, choices_append]
        exact .cons ⟨same, rfl⟩ (alikeBelow.append alikeAfter)

/-- Trees without failures come from an unfolding in which each dependency selects a version. -/
theorem Grows.unfolds {looked looked' : List Json} {trees : List Tree}
    (g : lookup.Grows path deps looked looked' trees) (sound : Tree.anyFailure trees = false) :
    ∃ walk, lookup.Unfolds deps walk ∧
      ∀ e ∈ walk, path.any (· == e.1) = false ∧ (lookup.choice e.1 e.2).isSome = true := by
  induction g with
  | done => exact ⟨[], .nil, fun e member => nomatch member⟩
  | refuse _ _ _ => cases sound
  | miss _ _ _ => cases sound
  | @enter path name requirement rest looked mid looked' package version children trees hs _ _ ihBelow ihRest =>
      rw [Tree.anyFailure, Tree.hasFailure, Bool.or_eq_false_iff] at sound
      obtain ⟨below, u, selectedBelow⟩ := ihBelow sound.1
      obtain ⟨after, v, selectedAfter⟩ := ihRest sound.2
      obtain ⟨fresh, _, found, selected⟩ := step_eq_enter hs
      refine ⟨_, .cons found u v, fun e member => ?_⟩
      rcases List.mem_cons.mp member with rfl | later
      · exact ⟨fresh, Option.isSome_of_eq_some selected⟩
      · rcases List.mem_append.mp later with inside | after
        · obtain ⟨off, chosen⟩ := selectedBelow e inside
          rw [any_snoc, Bool.or_eq_false_iff] at off
          exact ⟨off.1, chosen⟩
        · exact selectedAfter e after

theorem choice_of_met (met : Met pins name requirement)
    (stored : ∀ version, pins.get? name = some version → lookup.Stores name version) :
    ∃ pin selected, pins.get? name = some pin ∧ lookup.choice name requirement = some selected ∧
      Version.NotAfter pin selected := by
  obtain ⟨req, pin, read, pinned, admitted⟩ := met
  obtain ⟨package, found, member⟩ := stored pin pinned
  obtain ⟨selected, chosen, later⟩ := choice_of_admits found member read admitted
  exact ⟨pin, selected, pinned, chosen, later⟩

/-- A walk from a root that does not fail has an unfolding, each dependency of which selects a version that
is not before the pin. -/
theorem Walk.unfolds_of_root {root : Scalar} {package : Package} {s : Progress} (hl : lookup.ByName)
    {bound : Nat} (few : lookup.AtMost bound) (found : lookup root = some package)
    (same : (name == root) = true)
    (w : lookup.Walk [name] package.dependencies (.ofRoot root name package) s none) :
    ∃ walk, lookup.Unfolds package.dependencies walk ∧ ∀ e ∈ walk, ∃ pin selected,
      s.pins.get? e.1 = some pin ∧ lookup.choice e.1 e.2 = some selected ∧
        Version.NotAfter pin selected := by
  have settled := w.resolution_of_root hl found same
  have complete (n : Scalar) (reach : lookup.Reachable (fun n => (n == root) = true) n) :
      (lookup n).isSome = true := by
    by_cases other : (n == root) = true
    · rw [hl.same other, found, Option.isSome_some]
    · obtain ⟨v, pinned⟩ := Table.get?_of_has ((settled.keys n).mpr reach)
      obtain ⟨_, stored, _⟩ := w.stores_of_root hl same (eq_false_of_ne_true other) pinned
      exact Option.isSome_of_eq_some stored
  obtain ⟨walk, u⟩ := exists_unfolds_of_acyclic hl few found settled.acyclic complete
  refine ⟨walk, u, fun e member => ?_⟩
  obtain ⟨p, reach, declared⟩ := (u.mem_iff hl found).mp member
  have other : (e.1 == root) = false := BEq.comm.trans (u.apart hl found e member)
  exact choice_of_met (settled.met p e.1 e.2 ((settled.keys p).mpr reach) declared)
    fun v pinned => w.stores_of_root hl same other pinned

end Lookup

variable {σ : Type} {src : Source σ} {state : σ} {lookup : Lookup}

/-- The tree of a package that can be resolved. -/
theorem Source.Constant.tree_of_resolve_ok (hc : src.Constant state lookup)
    (finite : src.Finite state lookup) {root : Scalar} {pins : Table Scalar String}
    (h : (resolve src (.scalar root) state).2 = .ok pins) :
    ∃ (t : Tree) (entries : Table Scalar String),
      (dependencyTree src (.scalar root) state).2 = .ok t ∧ t.hasFailure = false ∧
      t.nodes = entries.map (fun e => (.scalar e.1, e.2)) ∧ Table.Alike entries.firsts pins ∧
      ∀ e ∈ entries, ∃ pin, pins.get? e.1 = some pin ∧ Version.NotAfter pin e.2 := by
  have hl := hc.toByName
  obtain ⟨package, name, s, found, named, same, rfl, w⟩ := hc.walk_of_resolve_ok h
  obtain ⟨walk, u, met⟩ := w.unfolds_of_root hl finite found same
  have chosen : ∀ e ∈ walk, (lookup.choice e.1 e.2).isSome = true := by
    intro e member
    obtain ⟨_, _, _, selected, _⟩ := met e member
    exact Option.isSome_of_eq_some selected
  obtain ⟨looked, children, entries, grown, sound, shown, alike⟩ :=
    u.grows hl chosen (u.off_root hl ((hl.same same).trans found)) [.scalar root]
  refine ⟨_, (name, Version.latestText package.versions) :: entries,
    (hc.dependencyTree_of_grows finite found named grown).1, sound, ?_, ?_, ?_⟩
  · rw [Tree.nodes, shown, List.map_cons]
  · rw [w.pins_of_root hl u]
    exact Table.Alike.firsts (.cons ⟨BEq.rfl, rfl⟩ alike)
  · intro e member
    rcases List.mem_cons.mp member with rfl | later
    · obtain ⟨v, written⟩ := Version.ofText?_latestText package.versions
      exact ⟨_, w.get?_mono (if_pos BEq.rfl), Version.notAfter_refl written⟩
    · obtain ⟨x, listed, spelled, version⟩ := alike.exists_of_mem e later
      obtain ⟨y, member, rfl⟩ := List.mem_map.mp listed
      obtain ⟨pin, selected, pinned, selects, notAfter⟩ := met y member
      rw [version, selects, Option.getD_some, Table.get?_congr spelled]
      exact ⟨pin, pinned, notAfter⟩

/-- Where the tree of a package has no failures, only a version conflict keeps it from being resolved. -/
theorem Source.Constant.resolve_of_tree (hc : src.Constant state lookup)
    (finite : src.Finite state lookup) {root : Scalar} {t : Tree}
    (h : (dependencyTree src (.scalar root) state).2 = .ok t) (sound : t.hasFailure = false) :
    (∃ pins, (resolve src (.scalar root) state).2 = .ok pins) ∨
      ∃ name existing requirement, (resolve src (.scalar root) state).2 =
        .error (.resolve (.conflict name existing requirement)) := by
  obtain ⟨package, name, children, found, named, same, rfl, grown⟩ := hc.grows_of_dependencyTree h
  obtain ⟨walk, u, selected⟩ := grown.unfolds sound
  obtain ⟨name', named', _, ⟨_, infinite⟩ | ⟨s, out, w, answer, _⟩⟩ := hc.resolve_found found
  · exact absurd finite infinite
  cases named.symm.trans named'
  cases out with
  | none => exact .inl ⟨s.pins, answer⟩
  | some failure =>
      obtain ⟨_, e, _, _, version, _, _, rfl, _⟩ := w.conflict_of_unfolds hc.toByName u
        (fun e member => (selected e member).2) (fun e member => (selected e member).1)
        (Lookup.finished_ofRoot root name package)
      exact .inr ⟨e.1, version, e.2, answer⟩

/-- Trees and flat resolution agree on success. If a package can be resolved, its tree has no failures; the
names that occur in the tree for the first time are pinned with their versions and in their order, and what
occurs later is shown with no version before the pin. If the tree has no failures, the package can be
resolved but for a version conflict. -/
theorem dependencyTree_agrees (hc : src.Constant state lookup) (finite : src.Finite state lookup)
    (root : Scalar) :
    (∀ pins, (resolve src (.scalar root) state).2 = .ok pins →
      ∃ (t : Tree) (entries : Table Scalar String),
        (dependencyTree src (.scalar root) state).2 = .ok t ∧ t.hasFailure = false ∧
        t.nodes = entries.map (fun e => (.scalar e.1, e.2)) ∧ Table.Alike entries.firsts pins ∧
        ∀ e ∈ entries, ∃ pin, pins.get? e.1 = some pin ∧ Version.NotAfter pin e.2) ∧
    (∀ t, (dependencyTree src (.scalar root) state).2 = .ok t → t.hasFailure = false →
      (∃ pins, (resolve src (.scalar root) state).2 = .ok pins) ∨
        ∃ name existing requirement, (resolve src (.scalar root) state).2 =
          .error (.resolve (.conflict name existing requirement))) :=
  ⟨fun _ resolved => hc.tree_of_resolve_ok finite resolved,
    fun _ grown sound => hc.resolve_of_tree finite grown sound⟩

theorem dependencyTree_agrees_diamond :
    ∃ (t : Tree) (entries : Table Scalar String),
      (dependencyTree Source.ofTable (.str "app") diamond).2 = .ok t ∧ t.hasFailure = false ∧
      t.nodes = entries.map (fun e => (.scalar e.1, e.2)) ∧ Table.Alike entries.firsts diamondPins ∧
      (∀ e ∈ entries, ∃ pin, diamondPins.get? e.1 = some pin ∧ Version.NotAfter pin e.2) ∧
      ((∃ pins, (resolve Source.ofTable (.str "app") diamond).2 = .ok pins) ∨
        ∃ name existing requirement, (resolve Source.ofTable (.str "app") diamond).2 =
          .error (.resolve (.conflict name existing requirement))) := by
  obtain ⟨agrees, conversely⟩ :=
    dependencyTree_agrees diamond_constant (Source.ofTable_finite diamond) "app"
  obtain ⟨t, entries, grown, sound, shown, first, later⟩ := agrees diamondPins rfl
  exact ⟨t, entries, grown, sound, shown, first, later, conversely t grown sound⟩

end ExprRegistry
