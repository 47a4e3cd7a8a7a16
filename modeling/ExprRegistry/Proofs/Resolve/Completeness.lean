import ExprRegistry.Proofs.Resolve.Unfolding

/-!
When a flat resolution succeeds. A flat walk skips what is pinned, and still pins the names of an unfolding
in the order in which they occur first: what is pinned off the path is pinned with everything below it.
Main statement: `resolve_eq_first_choices`.
-/

namespace ExprRegistry

namespace Lookup

/-- What is pinned off the path is pinned with everything below it. -/
def Finished (lookup : Lookup) (path : List Scalar) (pins : Table Scalar String) : Prop :=
  ∀ n, pins.has n = true → path.any (· == n) = false →
    ∀ package walk, lookup n = some package → lookup.Unfolds package.dependencies walk →
      ∀ e ∈ walk, pins.has e.1 = true

variable {lookup : Lookup} {deps walk below : Fields} {path : List Scalar} {s s' : Progress}
  {name : Scalar} {requirement : Json} {package : Package} {failure : Failure}

theorem Finished.extend_eq_self (finished : lookup.Finished path s.pins)
    (found : lookup name = some package) (u : lookup.Unfolds package.dependencies below)
    (hs : lookup.step path s.pins name requirement = .keep) :
    s.pins.extend (lookup.choices ((name, requirement) :: below)) = s.pins := by
  obtain ⟨fresh, kept⟩ := step_eq_keep hs
  refine Table.extend_eq_self fun x member => ?_
  obtain ⟨e, met, rfl⟩ := List.mem_map.mp member
  rcases List.mem_cons.mp met with rfl | inside
  · exact kept.has
  · exact finished name kept.has fresh package below found u e inside

theorem Finished.of_enter {version : String} (finished : lookup.Finished path s.pins)
    (hs : lookup.step path s.pins name requirement = .enter package version) :
    lookup.Finished (path ++ [name]) ((s.look name).pin name version).pins := by
  intro n pinned off package walk found u e member
  obtain ⟨before, away⟩ := before_of_enter hs pinned off
  rw [has_of_enter hs, finished n before away package walk found u e member, Bool.true_or]

theorem Finished.of_below (hl : lookup.ByName) {pins : Table Scalar String}
    (finished : lookup.Finished (path ++ [name]) pins) (found : lookup name = some package)
    (u : lookup.Unfolds package.dependencies below) (all : ∀ e ∈ below, pins.has e.1 = true) :
    lookup.Finished path pins := by
  intro n pinned off package' walk found' u' e member
  by_cases same : (name == n) = true
  · cases (found.symm.trans (hl.same same)).trans found'
    rw [u'.unique u] at member
    exact all e member
  · refine finished n pinned ?_ package' walk found' u' e member
    rw [any_snoc, off, Bool.false_or]
    exact eq_false_of_ne_true same

theorem extend_of_enter {version : String}
    (hs : lookup.step path s.pins name requirement = .enter package version)
    (walk : Fields) : ((s.look name).pin name version).pins.extend (lookup.choices walk) =
      s.pins.extend (lookup.choices ((name, requirement) :: walk)) := by
  obtain ⟨_, unpinned, _, chosen⟩ := step_eq_enter hs
  have added : ((s.look name).pin name version).pins = s.pins.extend [(name, version)] :=
    (Table.extend_of_get?_eq_none unpinned version).symm
  rw [added, ← Table.extend_append, choices_cons chosen, List.singleton_append]

theorem has_extend_choices (pins : Table Scalar String) :
    ∀ e ∈ walk, (pins.extend (lookup.choices walk)).has e.1 = true := by
  intro e member
  rw [Table.has, Table.get?_extend, Option.isSome_or, Bool.or_eq_true]
  exact .inr ((has_choices lookup e.1 walk).trans (Table.has_of_mem member))

theorem finished_nil (path : List Scalar) : lookup.Finished path [] := fun _ pinned => nomatch pinned

theorem finished_ofRoot (root name : Scalar) (package : Package) :
    lookup.Finished [name] (Progress.ofRoot root name package).pins := by
  intro n pinned off
  rw [any_singleton] at off
  rw [Progress.has_ofRoot, off] at pinned
  cases pinned

theorem Unfolds.off_root (hl : lookup.ByName) (found : lookup name = some package)
    (u : lookup.Unfolds package.dependencies walk) : ∀ e ∈ walk, [name].any (· == e.1) = false := by
  intro e member
  rw [any_singleton]
  exact u.apart hl found e member

theorem Unfolds.fresh_root (hl : lookup.ByName) (found : lookup name = some package)
    (u : lookup.Unfolds package.dependencies walk) (root : Scalar) :
    ∀ e ∈ walk, (Progress.ofRoot root name package).pins.get? e.1 = none := fun e member =>
  if_neg (ne_true_of_eq_false (u.apart hl found e member))

theorem Unfolds.firsts_root (hl : lookup.ByName) (found : lookup name = some package)
    (u : lookup.Unfolds package.dependencies walk) (version : String) :
    Table.firsts ((name, version) :: lookup.choices walk) =
      (name, version) :: (lookup.choices walk).firsts := by
  refine Table.extend_cons_left (fun x member => ?_) []
  obtain ⟨e, met, rfl⟩ := List.mem_map.mp member
  exact u.apart hl found e met

/-- A dependency that selects a version off the path is refused only for the pin that is there. -/
theorem conflict_of_refuse (hs : lookup.step path s.pins name requirement = .refuse failure)
    (off : path.any (· == name) = false) (chosen : (lookup.choice name requirement).isSome = true) :
    ∃ req version, failure = .resolve (.conflict name version requirement) ∧
      s.pins.get? name = some version ∧ Requirement.ofJson requirement = .ok req ∧
      req.admitsJson (.str version) = false := by
  rcases step_eq_refuse hs with ⟨met, _⟩ | ⟨_, m, unread, _⟩ | ⟨_, req, version, read, pinned, refused, told⟩
  · rw [off] at met
    cases met
  · obtain ⟨selected, hv⟩ := Option.isSome_iff_exists.mp chosen
    obtain ⟨_, req, _, read, _⟩ := choice_eq_some_iff.mp hv
    cases read.symm.trans unread
  · exact ⟨req, version, told, pinned, read, refused⟩

theorem not_miss_of_choice {pins : Table Scalar String}
    (chosen : (lookup.choice name requirement).isSome = true) :
    lookup.step path pins name requirement ≠ .miss failure := by
  intro hs
  obtain ⟨_, req, read, _, vain⟩ := step_eq_miss hs
  obtain ⟨selected, hv⟩ := Option.isSome_iff_exists.mp chosen
  obtain ⟨package', req', found', read', hv⟩ := choice_eq_some_iff.mp hv
  cases read.symm.trans read'
  rcases vain with ⟨missing, _⟩ | ⟨_, again, unmatched, _⟩
  · cases missing.symm.trans found'
  · cases again.symm.trans found'
    cases unmatched.symm.trans hv

namespace Walk

/-- A walk without a failure pins the names of its unfolding, each with its first choice. -/
theorem pins_of_unfolds (hl : lookup.ByName) (u : lookup.Unfolds deps walk)
    (w : lookup.Walk path deps s s' none) (finished : lookup.Finished path s.pins) :
    s'.pins = s.pins.extend (lookup.choices walk) ∧ lookup.Finished path s'.pins := by
  induction u generalizing path s s' with
  | nil => cases w; exact ⟨rfl, finished⟩
  | @cons name requirement rest package below after found u v ihBelow ihAfter =>
      rw [← List.cons_append, choices_append, Table.extend_append]
      cases w with
      | keep hs w =>
          rw [finished.extend_eq_self found u hs]
          exact ihAfter w finished
      | enter hs wBelow wAfter =>
          obtain ⟨_, _, found', _⟩ := step_eq_enter hs
          cases found.symm.trans found'
          obtain ⟨pinsBelow, finishedBelow⟩ := ihBelow wBelow (finished.of_enter hs)
          have finishedHere :=
            finishedBelow.of_below hl found u (pinsBelow ▸ has_extend_choices _)
          obtain ⟨pinsAfter, finishedAfter⟩ := ihAfter wAfter finishedHere
          refine ⟨?_, finishedAfter⟩
          rw [pinsAfter, pinsBelow, extend_of_enter hs]

/-- Along an unfolding in which each dependency selects a version, a walk only fails where a later
requirement refuses the pin. -/
theorem conflict_of_unfolds (hl : lookup.ByName) (u : lookup.Unfolds deps walk)
    (w : lookup.Walk path deps s s' (some failure))
    (chosen : ∀ e ∈ walk, (lookup.choice e.1 e.2).isSome = true)
    (off : ∀ e ∈ walk, path.any (· == e.1) = false) (finished : lookup.Finished path s.pins) :
    ∃ before e rest req version, walk = before ++ e :: rest ∧
      s'.pins = s.pins.extend (lookup.choices before) ∧
      failure = .resolve (.conflict e.1 version e.2) ∧ s'.pins.get? e.1 = some version ∧
      Requirement.ofJson e.2 = .ok req ∧ req.admitsJson (.str version) = false := by
  induction u generalizing path s s' with
  | nil => cases w
  | @cons name requirement rest package below after found u v ihBelow ihAfter =>
      rw [List.forall_mem_cons, List.forall_mem_append] at chosen off
      obtain ⟨chosenHere, chosenBelow, chosenAfter⟩ := chosen
      obtain ⟨offHere, offBelow, offAfter⟩ := off
      cases w with
      | keep hs w =>
          obtain ⟨before, e, rest, req, version, rfl, pins, stopped⟩ :=
            ihAfter w chosenAfter offAfter finished
          refine ⟨(name, requirement) :: below ++ before, e, rest, req, version, ?_, ?_, stopped⟩
          · rw [List.append_assoc, List.cons_append]
          · rw [choices_append, Table.extend_append, finished.extend_eq_self found u hs, pins]
      | refuse hs =>
          obtain ⟨req, version, stopped⟩ := conflict_of_refuse hs offHere chosenHere
          exact ⟨[], _, _, req, version, rfl, rfl, stopped⟩
      | miss hs => exact absurd hs (not_miss_of_choice chosenHere)
      | sink hs w =>
          obtain ⟨_, _, found', _⟩ := step_eq_enter hs
          cases found.symm.trans found'
          -- what is met below a package never is the package itself
          have offLonger : ∀ e ∈ below, (path ++ [name]).any (· == e.1) = false := by
            intro e member
            rw [any_snoc, offBelow e member, u.apart hl found e member, Bool.or_false]
          obtain ⟨before, e, rest, req, version, rfl, pins, stopped⟩ :=
            ihBelow w chosenBelow offLonger (finished.of_enter hs)
          refine ⟨(name, requirement) :: before, e, rest ++ after, req, version, ?_, ?_, stopped⟩
          · rw [List.cons_append, List.append_assoc, List.cons_append]
          · rw [pins, extend_of_enter hs]
      | enter hs wBelow wAfter =>
          obtain ⟨_, _, found', _⟩ := step_eq_enter hs
          cases found.symm.trans found'
          obtain ⟨pinsBelow, finishedBelow⟩ := pins_of_unfolds hl u wBelow (finished.of_enter hs)
          have finishedHere :=
            finishedBelow.of_below hl found u (pinsBelow ▸ has_extend_choices _)
          obtain ⟨before, e, rest, req, version, rfl, pins, stopped⟩ :=
            ihAfter wAfter chosenAfter offAfter finishedHere
          refine ⟨(name, requirement) :: below ++ before, e, rest, req, version, ?_, ?_, stopped⟩
          · rw [List.append_assoc, List.cons_append]
          · rw [pins, pinsBelow, extend_of_enter hs, ← Table.extend_append, ← choices_append]

theorem pins_of_root {root : Scalar} (hl : lookup.ByName)
    (u : lookup.Unfolds package.dependencies walk)
    (w : lookup.Walk [name] package.dependencies (.ofRoot root name package) s none) :
    s.pins = Table.firsts ((name, Version.latestText package.versions) :: lookup.choices walk) :=
  (w.pins_of_unfolds hl u (finished_ofRoot root name package)).1

end Walk

/-- An unfolding in which each dependency selects a version, and admits what the first dependency on its
name selects. -/
structure Coherent (lookup : Lookup) (deps walk : Fields) : Prop where
  unfolds : lookup.Unfolds deps walk
  chosen : ∀ e ∈ walk, (lookup.choice e.1 e.2).isSome = true
  met : ∀ e ∈ walk, Met (lookup.choices walk) e.1 e.2

/-- Along a coherent unfolding no walk fails that has pinned nothing of it. -/
theorem Coherent.not_fails (hl : lookup.ByName) (coherent : lookup.Coherent deps walk)
    (off : ∀ e ∈ walk, path.any (· == e.1) = false) (fresh : ∀ e ∈ walk, s.pins.get? e.1 = none)
    (finished : lookup.Finished path s.pins) {failure : Failure} :
    ¬ lookup.Walk path deps s s' (some failure) := by
  intro w
  obtain ⟨before, e, rest, req, version, rfl, pins, _, pinned, read, refused⟩ :=
    w.conflict_of_unfolds hl coherent.unfolds coherent.chosen off finished
  have member : e ∈ before ++ e :: rest := List.mem_append_right before List.mem_cons_self
  rw [pins, Table.get?_extend, fresh e member, Option.none_or] at pinned
  obtain ⟨req', version', read', first, admitted⟩ := coherent.met e member
  rw [choices_append, Table.get?_append_of_some pinned] at first
  cases first
  cases read.symm.trans read'
  rw [refused] at admitted
  cases admitted

/-- A version for each name of an unfolding: the choice of the first requirement that is met on the name,
which every requirement on it admits. -/
structure Agree (lookup : Lookup) (root : Scalar) (walk : Fields) (version : Scalar → String) : Prop where
  first : ∀ d q, walk.get? d = some q → lookup.choice d q = some (version d)
  admitted : ∀ d q req, lookup.Edge root d q → Requirement.ofJson q = .ok req →
    req.admitsJson (.str (version d)) = true

theorem Agree.coherent {root : Scalar} {version : Scalar → String} (hl : lookup.ByName)
    (found : lookup root = some package) (u : lookup.Unfolds package.dependencies walk)
    (agree : lookup.Agree root walk version)
    (readable : ∀ d q, lookup.Edge root d q → ∃ req, Requirement.ofJson q = .ok req) :
    lookup.Coherent package.dependencies walk := by
  have admitted (e : Scalar × Json) (member : e ∈ walk) : ∃ req, Requirement.ofJson e.2 = .ok req ∧
      req.admitsJson (.str (version e.1)) = true := by
    have edge : lookup.Edge root e.1 e.2 := (u.mem_iff hl found).mp member
    obtain ⟨req, read⟩ := readable e.1 e.2 edge
    exact ⟨req, read, agree.admitted e.1 e.2 req edge read⟩
  have first (e : Scalar × Json) (member : e ∈ walk) : ∃ q, walk.get? e.1 = some q :=
    Table.get?_of_has (Table.has_of_mem member)
  refine ⟨u, fun e member => ?_, fun e member => ?_⟩
  · obtain ⟨q, here⟩ := first e member
    obtain ⟨req, read, admits⟩ := admitted e member
    obtain ⟨⟨package', found', stored⟩, _⟩ := choice_eq_some (agree.first e.1 q here)
    obtain ⟨selected, hs, _⟩ := choice_of_admits found' stored read admits
    exact Option.isSome_of_eq_some hs
  · obtain ⟨q, here⟩ := first e member
    obtain ⟨req, read, admits⟩ := admitted e member
    refine ⟨req, version e.1, read, ?_, admits⟩
    rw [get?_choices hl, here, Option.map_some, agree.first e.1 q here, Option.getD_some]

/-- Where the first choices are admitted by all requirements, no walk from the root fails. -/
theorem Agree.not_fails {root : Scalar} {version : Scalar → String} (hl : lookup.ByName)
    (found : lookup root = some package) (same : (name == root) = true)
    (u : lookup.Unfolds package.dependencies walk) (agree : lookup.Agree root walk version)
    (readable : ∀ d q, lookup.Edge root d q → ∃ req, Requirement.ofJson q = .ok req) :
    ¬ lookup.Walk [name] package.dependencies (.ofRoot root name package) s (some failure) := by
  have foundName : lookup name = some package := (hl.same same).trans found
  exact (agree.coherent hl found u readable).not_fails hl (u.off_root hl foundName)
    (u.fresh_root hl foundName root) (finished_ofRoot root name package)

end Lookup

variable {σ : Type} {src : Source σ} {state : σ} {lookup : Lookup}

/-- Resolution succeeds where nothing stands in its way. In a graph without cycles, in which everything has
a package and a requirement that can be read, let each name have the version that the first requirement
met on it selects. If all other requirements on the name admit this version, it is what the name is pinned
to, and the names are pinned in the order in which they are met. -/
theorem resolve_eq_first_choices (hc : src.Constant state lookup) (finite : src.Finite state lookup)
    {root : Scalar} {package : Package} (found : lookup root = some package)
    (acyclic : ∀ n, lookup.Reachable (fun n => (n == root) = true) n →
      ¬ Relation.TransGen lookup.DependsOn n n)
    (complete : ∀ n, lookup.Reachable (fun n => (n == root) = true) n → (lookup n).isSome = true)
    (readable : ∀ d q, lookup.Edge root d q → ∃ req, Requirement.ofJson q = .ok req) :
    ∃ name walk, package.name = .scalar name ∧ (name == root) = true ∧
      (∀ w, lookup.Unfolds package.dependencies w ↔ w = walk) ∧
      (∀ d, walk.has d = true ↔
        lookup.Reachable (fun n => (n == root) = true) d ∧ (d == root) = false) ∧
      ∀ version, lookup.Agree root walk version →
        (resolve src (.scalar root) state).2 = .ok ((name, Version.latestText package.versions) ::
          walk.firsts.keys.map fun d => (d, version d)) := by
  have hl := hc.toByName
  obtain ⟨walk, u⟩ := Lookup.exists_unfolds_of_acyclic hl finite found acyclic complete
  obtain ⟨name, named, same, outcome⟩ := hc.resolve_found found
  refine ⟨name, walk, named, same, fun w => ⟨fun other => other.unique u, fun eq => eq ▸ u⟩,
    u.has_iff_reachable hl found, ?_⟩
  intro version agree
  rcases outcome with ⟨_, infinite⟩ | ⟨s, out, w, answer, _⟩
  · exact absurd finite infinite
  cases out with
  | some failure => exact absurd w (agree.not_fails hl found same u readable)
  | none =>
      rw [answer, Progress.answer, w.pins_of_root hl u, u.firsts_root hl ((hl.same same).trans found),
        Lookup.choices, Table.firsts_map, Table.keys, List.map_map]
      congr 2
      refine List.map_congr_left fun e member => ?_
      rw [agree.first e.1 e.2 (Table.get?_of_mem_firsts member)]
      rfl

theorem diamond_readable (d : Scalar) (q : Json) (edge : (Lookup.ofTable diamond).Edge "app" d q) :
    ∃ req, Requirement.ofJson q = .ok req := by
  have all : ∀ e ∈ Lookup.diamondWalk, ∃ req, Requirement.ofJson e.2 = .ok req := by
    simp only [Lookup.diamondWalk, List.forall_mem_cons]
    exact ⟨⟨_, rfl⟩, ⟨_, rfl⟩, ⟨_, rfl⟩, ⟨_, rfl⟩, fun _ member => nomatch member⟩
  exact all _ ((Lookup.diamond_unfolds.mem_iff diamond_constant.toByName rfl).mpr edge)

theorem diamond_agrees :
    (Lookup.ofTable diamond).Agree "app" Lookup.diamondWalk fun d => (diamondPins.get? d).getD "" := by
  have hl := diamond_constant.toByName
  have chosen : ∀ e ∈ Lookup.diamondWalk.firsts, (Lookup.ofTable diamond).choice e.1 e.2 =
      some ((diamondPins.get? e.1).getD "") := by decide
  have admitted : ∀ e ∈ Lookup.diamondWalk, ∀ req ∈ (Requirement.ofJson e.2).toOption,
      req.admitsJson (.str ((diamondPins.get? e.1).getD "")) = true := by decide
  refine ⟨fun d q here => ?_, fun d q req edge read => ?_⟩
  · rw [← Table.get?_firsts] at here
    obtain ⟨k, member, same⟩ := Table.mem_of_get? here
    rw [← Lookup.choice_congr hl same, ← Table.get?_congr same]
    exact chosen (k, q) member
  · have member := (Lookup.diamond_unfolds.mem_iff hl rfl).mpr edge
    exact admitted (d, q) member req (congrArg Except.toOption read)

theorem resolve_eq_first_choices_diamond :
    (resolve Source.ofTable (.str "app") diamond).2 = .ok diamondPins := by
  have hl := diamond_constant.toByName
  obtain ⟨name, walk, named, _, unique, _, success⟩ :=
    resolve_eq_first_choices diamond_constant (Source.ofTable_finite diamond)
      (rfl : Lookup.ofTable diamond "app" = some _) (Lookup.diamond_unfolds.acyclic hl rfl)
      (Lookup.diamond_unfolds.complete hl rfl) diamond_readable
  cases named
  cases (unique _).mp Lookup.diamond_unfolds
  exact success _ diamond_agrees

end ExprRegistry
