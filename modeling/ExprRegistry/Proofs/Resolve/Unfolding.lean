import ExprRegistry.Proofs.Resolve.Soundness

/-!
The unfolding of a graph of dependencies: what a walk meets that goes depth first in the order of
declaration, pins nothing and so goes through a shared dependency again on each way to it. There is one
exactly where there are no cycles and everything has a package. Main statements: `exists_unfolds` and
`Unfolds.mem_iff`.
-/

namespace ExprRegistry

namespace Lookup

/-- The dependencies that are met below some dependencies, each before those of its package. Only a graph
without cycles, in which everything has a package, has an unfolding. -/
inductive Unfolds (lookup : Lookup) : Fields → Fields → Prop
  | nil : Unfolds lookup [] []
  | cons {name requirement rest package below after} : lookup name = some package →
      Unfolds lookup package.dependencies below → Unfolds lookup rest after →
      Unfolds lookup ((name, requirement) :: rest) ((name, requirement) :: (below ++ after))

/-- The version that each dependency of an unfolding selects by itself. It is meant for unfoldings in which
each of them selects one. -/
def choices (lookup : Lookup) (walk : Fields) : Table Scalar String :=
  walk.map fun e => (e.1, (lookup.choice e.1 e.2).getD Version.sentinel)

variable {lookup : Lookup} {deps walk : Fields} {package : Package} {d n : Scalar} {requirement : Json}

theorem choices_append (lookup : Lookup) (walk more : Fields) :
    lookup.choices (walk ++ more) = lookup.choices walk ++ lookup.choices more := List.map_append

theorem choices_cons {version : String} (chosen : lookup.choice d requirement = some version)
    (walk : Fields) : lookup.choices ((d, requirement) :: walk) = (d, version) :: lookup.choices walk := by
  rw [choices, List.map_cons, chosen, Option.getD_some, ← choices]

theorem has_choices (lookup : Lookup) (n : Scalar) (walk : Fields) :
    (lookup.choices walk).has n = Table.has n walk := by
  rw [Bool.eq_iff_iff, Table.has_iff_mem, Table.has_iff_mem]
  constructor
  · rintro ⟨x, member, same⟩
    obtain ⟨e, met, rfl⟩ := List.mem_map.mp member
    exact ⟨e, met, same⟩
  · rintro ⟨e, met, same⟩
    exact ⟨_, List.mem_map.mpr ⟨e, met, rfl⟩, same⟩

/-- A name has the choice of its first requirement. -/
theorem get?_choices (hl : lookup.ByName) (n : Scalar) (walk : Fields) :
    (lookup.choices walk).get? n =
      (walk.get? n).map fun q => (lookup.choice n q).getD Version.sentinel := by
  induction walk with
  | nil => rfl
  | cons e walk ih =>
      rw [choices, List.map_cons, Table.get?_cons, Table.get?_cons]
      by_cases same : (e.1 == n) = true
      · rw [if_pos same, if_pos same, Option.map_some, choice_congr hl same]
      · rw [if_neg same, if_neg same]
        exact ih

namespace Unfolds

theorem subset (u : lookup.Unfolds deps walk) : ∀ e ∈ deps, e ∈ walk := by
  induction u with
  | nil => intro e member; exact member
  | cons _ _ _ _ ih =>
      intro e member
      rcases List.mem_cons.mp member with rfl | later
      · exact List.mem_cons_self
      · exact List.mem_cons_of_mem _ (List.mem_append_right _ (ih e later))

theorem edges (Edge : Scalar → Json → Prop)
    (he : ∀ d q, Edge d q → ∀ d' q', lookup.Declares d d' q' → Edge d' q')
    (u : lookup.Unfolds deps walk) (hd : ∀ e ∈ deps, Edge e.1 e.2) : ∀ e ∈ walk, Edge e.1 e.2 := by
  induction u with
  | nil => exact hd
  | cons found _ _ ihBelow ihAfter =>
      intro e member
      have here := hd _ List.mem_cons_self
      rcases List.mem_cons.mp member with rfl | later
      · exact here
      rcases List.mem_append.mp later with inside | after
      · exact ihBelow (fun x hx => he _ _ here _ _ (declares_of_mem found hx)) e inside
      · exact ihAfter (fun x hx => hd x (List.mem_cons_of_mem _ hx)) e after

theorem transGen (found : lookup d = some package) (u : lookup.Unfolds package.dependencies walk) :
    ∀ e ∈ walk, Relation.TransGen lookup.DependsOn d e.1 :=
  u.edges (fun n _ => Relation.TransGen lookup.DependsOn d n)
    (fun _ _ before _ _ declared => before.tail declared.dependsOn)
    fun _ member => .single (declares_of_mem found member).dependsOn

theorem found (u : lookup.Unfolds deps walk) : ∀ e ∈ walk, (lookup e.1).isSome = true := by
  induction u with
  | nil => intro e member; cases member
  | cons found _ _ ihBelow ihAfter =>
      intro e member
      rcases List.mem_cons.mp member with rfl | later
      · exact Option.isSome_of_eq_some found
      · rcases List.mem_append.mp later with inside | after
        · exact ihBelow e inside
        · exact ihAfter e after

/-- What is met is followed by everything that its package declares. -/
theorem closed (u : lookup.Unfolds deps walk) :
    ∀ e ∈ walk, ∀ d q, lookup.Declares e.1 d q → (d, q) ∈ walk := by
  induction u with
  | nil => intro e member; cases member
  | cons found below _ ihBelow ihAfter =>
      intro e member d q declared
      refine List.mem_cons_of_mem _ (List.mem_append.mpr ?_)
      rcases List.mem_cons.mp member with rfl | later
      · obtain ⟨package, found', declared⟩ := declared
        cases found.symm.trans found'
        exact .inl (below.subset _ declared)
      · rcases List.mem_append.mp later with inside | after
        · exact .inl (ihBelow e inside d q declared)
        · exact .inr (ihAfter e after d q declared)

/-- What is met below a package is all that can be reached from it. -/
theorem has_iff (hl : lookup.ByName) (found : lookup d = some package)
    (u : lookup.Unfolds package.dependencies walk) :
    walk.has n = true ↔ Relation.TransGen lookup.DependsOn d n := by
  rw [Table.has_iff_mem]
  constructor
  · rintro ⟨e, member, same⟩
    exact transGen_congr_right same (u.transGen found e member)
  · intro reached
    induction reached with
    | single edge =>
        obtain ⟨m, q, ⟨package', found', declared⟩, same⟩ := edge
        cases found.symm.trans found'
        exact ⟨(m, q), u.subset _ declared, same⟩
    | tail _ edge ih =>
        obtain ⟨e, member, same⟩ := ih
        obtain ⟨m, q, declared, target⟩ := edge.congr_left hl (BEq.symm same)
        exact ⟨(m, q), u.closed e member m q declared, target⟩

theorem grounded (hl : lookup.ByName) (u : lookup.Unfolds deps walk) :
    ∀ e ∈ walk, lookup.Grounded e.1 := by
  induction u with
  | nil => intro e member; cases member
  | cons found below _ ihBelow ihAfter =>
      intro e member
      rcases List.mem_cons.mp member with rfl | later
      · exact grounded_of_deps hl found fun x hx => ihBelow x (below.subset x hx)
      · rcases List.mem_append.mp later with inside | after
        · exact ihBelow e inside
        · exact ihAfter e after

theorem grounded_root (hl : lookup.ByName) (found : lookup d = some package)
    (u : lookup.Unfolds package.dependencies walk) : lookup.Grounded d :=
  grounded_of_deps hl found fun e member => u.grounded hl e (u.subset e member)

/-- Nothing is met below itself. -/
theorem apart (hl : lookup.ByName) (found : lookup d = some package)
    (u : lookup.Unfolds package.dependencies walk) : ∀ e ∈ walk, (d == e.1) = false := by
  intro e member
  refine eq_false_of_ne_true fun same => ?_
  have below := u.transGen found e member
  exact (u.grounded_root hl found).not_transGen (transGen_congr_right (BEq.symm same) below)

theorem acyclic (hl : lookup.ByName) (found : lookup d = some package)
    (u : lookup.Unfolds package.dependencies walk) (n : Scalar)
    (reach : lookup.Reachable (fun n => (n == d) = true) n) :
    ¬ Relation.TransGen lookup.DependsOn n n := by
  have ended := u.grounded_root hl found
  rcases (reachable_iff hl).mp reach with same | reached
  · exact (ended.congr hl (BEq.symm same)).not_transGen
  · exact (ended.of_transGen reached).not_transGen

theorem has_iff_reachable (hl : lookup.ByName) (found : lookup d = some package)
    (u : lookup.Unfolds package.dependencies walk) (n : Scalar) :
    walk.has n = true ↔
      lookup.Reachable (fun n => (n == d) = true) n ∧ (n == d) = false := by
  rw [u.has_iff hl found, reachable_iff hl]
  constructor
  · intro reached
    refine ⟨.inr reached, eq_false_of_ne_true fun back => ?_⟩
    exact (u.grounded_root hl found).not_transGen (transGen_congr_right back reached)
  · rintro ⟨reached | reached, other⟩
    · rw [other] at reached
      cases reached
    · exact reached

/-- The members of an unfolding are the dependencies within reach. -/
theorem mem_iff (hl : lookup.ByName) (found : lookup d = some package)
    (u : lookup.Unfolds package.dependencies walk) :
    (n, requirement) ∈ walk ↔ lookup.Edge d n requirement := by
  constructor
  · exact u.edges (lookup.Edge d) (fun _ _ edge => edge.next)
      (fun e member => ⟨d, .start BEq.rfl, declares_of_mem found member⟩) (n, requirement)
  · rintro ⟨p, reach, declared⟩
    rcases (reachable_iff hl).mp reach with same | reached
    · obtain ⟨package', found', declared⟩ := declared.congr hl same
      cases found.symm.trans found'
      exact u.subset _ declared
    · obtain ⟨e, member, same⟩ := Table.has_iff_mem.mp ((u.has_iff hl found).mpr reached)
      exact u.closed e member n requirement (declared.congr hl (BEq.symm same))

theorem complete (hl : lookup.ByName) (found : lookup d = some package)
    (u : lookup.Unfolds package.dependencies walk) (n : Scalar)
    (reach : lookup.Reachable (fun n => (n == d) = true) n) : (lookup n).isSome = true := by
  rcases (reachable_iff hl).mp reach with same | reached
  · rw [hl.same same, found, Option.isSome_some]
  · obtain ⟨e, member, same⟩ := Table.has_iff_mem.mp ((u.has_iff hl found).mpr reached)
    rw [← hl.same same, u.found e member]

theorem unique {other : Fields} (u : lookup.Unfolds deps walk) (v : lookup.Unfolds deps other) :
    walk = other := by
  induction u generalizing other with
  | nil => cases v; rfl
  | cons found _ _ ihBelow ihAfter =>
      cases v with
      | cons found' below' after' =>
          cases found.symm.trans found'
          rw [ihBelow below', ihAfter after']

end Unfolds

/-- Unfoldings of the packages of some dependencies make one of the dependencies. What holds of all their
members holds of all its members. -/
theorem exists_unfolds_of_each {P : Scalar × Json → Prop}
    (h : ∀ e ∈ deps, P e ∧ ∃ package below, lookup e.1 = some package ∧
      lookup.Unfolds package.dependencies below ∧ ∀ x ∈ below, P x) :
    ∃ walk, lookup.Unfolds deps walk ∧ ∀ e ∈ walk, P e := by
  induction deps with
  | nil => exact ⟨[], .nil, fun e member => nomatch member⟩
  | cons e deps ih =>
      obtain ⟨here, package, below, found, u, inside⟩ := h e List.mem_cons_self
      obtain ⟨after, v, outside⟩ := ih fun x hx => h x (List.mem_cons_of_mem e hx)
      exact ⟨_, .cons found u v,
        List.forall_mem_cons.mpr ⟨here, List.forall_mem_append.mpr ⟨inside, outside⟩⟩⟩

/-- A package from which all chains end has an unfolding, if all that it needs has packages. -/
theorem exists_unfolds {Within : Scalar → Prop} (next : ∀ p d, Within p → lookup.DependsOn p d → Within d)
    (found : ∀ p, Within p → (lookup p).isSome = true) (h : lookup.Grounded n) (within : Within n) :
    ∃ package walk, lookup n = some package ∧ lookup.Unfolds package.dependencies walk := by
  induction h with
  | intro n _ ih =>
      obtain ⟨package, found'⟩ := Option.isSome_iff_exists.mp (found n within)
      have each : ∀ e ∈ package.dependencies, True ∧ ∃ package below, lookup e.1 = some package ∧
          lookup.Unfolds package.dependencies below ∧ ∀ x ∈ below, True := by
        intro e member
        have edge : lookup.DependsOn n e.1 := (declares_of_mem found' member).dependsOn
        obtain ⟨package', below, found, u⟩ := ih e.1 edge (next n e.1 within edge)
        exact ⟨trivial, package', below, found, u, fun _ _ => trivial⟩
      obtain ⟨walk, u, _⟩ := exists_unfolds_of_each each
      exact ⟨package, walk, found', u⟩

/-- Where only so many packages exist, a name that reaches no cycle has all its chains end. The chains are
measured by the packages that are not yet on the path. -/
theorem grounded_of_acyclic (hl : lookup.ByName) {bound : Nat} (few : lookup.AtMost bound)
    (acyclic : ∀ p, p = n ∨ Relation.TransGen lookup.DependsOn n p →
      ¬ Relation.TransGen lookup.DependsOn p p) : lookup.Grounded n := by
  suffices key : ∀ left path n, lookup.Simple path → bound < path.length + left →
      (∀ a ∈ path, Relation.TransGen lookup.DependsOn a n) →
      (∀ p, p = n ∨ Relation.TransGen lookup.DependsOn n p →
        ¬ Relation.TransGen lookup.DependsOn p p) → lookup.Grounded n from
    key (bound + 1) [] n ⟨List.Pairwise.nil, fun _ member => nomatch member⟩ (by simp)
      (fun _ member => nomatch member) acyclic
  intro left
  induction left with
  | zero =>
      intro path n simple long
      have bounded := few path simple
      omega
  | succ left ih =>
      intro path n simple long before acyclic
      -- everything on the path reaches the name, so a name that comes again closes a cycle
      refine Acc.intro n fun d edge => ?_
      have fresh : path.any (· == n) = false := by
        refine List.any_eq_false.mpr fun a member same => ?_
        exact acyclic n (.inl rfl) (transGen_congr_left hl same (before a member))
      obtain ⟨_, _, ⟨package, found, _⟩, _⟩ := id edge
      refine ih (path ++ [n]) d (simple.snoc (Option.isSome_of_eq_some found) fresh) ?_ ?_ ?_
      · rw [List.length_append, List.length_singleton]
        omega
      · intro a member
        rcases List.mem_append.mp member with earlier | last
        · exact (before a earlier).tail edge
        · rw [List.mem_singleton.mp last]
          exact .single edge
      · rintro p (rfl | after)
        · exact acyclic p (.inr (.single edge))
        · exact acyclic p (.inr (.head edge after))

theorem exists_unfolds_of_acyclic (hl : lookup.ByName) {bound : Nat} (few : lookup.AtMost bound)
    (found : lookup n = some package)
    (acyclic : ∀ p, lookup.Reachable (fun p => (p == n) = true) p →
      ¬ Relation.TransGen lookup.DependsOn p p)
    (complete : ∀ p, lookup.Reachable (fun p => (p == n) = true) p → (lookup p).isSome = true) :
    ∃ walk, lookup.Unfolds package.dependencies walk := by
  have grounded := grounded_of_acyclic hl few fun p hp =>
    acyclic p ((reachable_iff hl).mpr (hp.imp_left beq_of_eq))
  obtain ⟨package', walk, found', u⟩ :=
    exists_unfolds (fun _ _ reach edge => reach.step edge) complete grounded (.start BEq.rfl)
  cases found.symm.trans found'
  exact ⟨walk, u⟩

def diamondWalk : Fields :=
  [("left", "~> 1.0"), ("base", "< 2.0.0"), ("right", ">= 1.0.0"), ("base", ">= 1.0.0")]

theorem diamond_unfolds :
    (Lookup.ofTable diamond).Unfolds [("left", "~> 1.0"), ("right", ">= 1.0.0")] diamondWalk := by
  have base (q : Json) : (Lookup.ofTable diamond).Unfolds [("base", q)] [("base", q)] :=
    @Unfolds.cons _ "base" q [] _ [] [] rfl .nil .nil
  have right : (Lookup.ofTable diamond).Unfolds [("right", ">= 1.0.0")]
      [("right", ">= 1.0.0"), ("base", ">= 1.0.0")] :=
    @Unfolds.cons _ "right" _ [] _ [_] [] rfl (base _) .nil
  exact @Unfolds.cons _ "left" _ _ _ [_] _ rfl (base _) right

end Lookup

end ExprRegistry
