import ExprRegistry.Proofs.Resolve.Walk

/-!
What a flat resolution that succeeds has settled. A walk only adds pins, meets every dependency it comes
to, and leaves no package behind whose dependencies are open. A package off the path that is pinned is
finished, so chains of dependencies from it end; this is where a cycle would have been found. Main
statement: `resolution_sound`.
-/

namespace ExprRegistry

def Lookup.Stores (lookup : Lookup) (name : Scalar) (version : String) : Prop :=
  ∃ package, lookup name = some package ∧ version ∈ package.versions

/-- Pins that settle everything that can be reached from some first names. That the first names have
packages is not part of it. -/
structure Lookup.Resolution (lookup : Lookup) (first : Scalar → Prop) (pins : Table Scalar String) :
    Prop where
  distinct : pins.Distinct
  keys : ∀ n, pins.has n = true ↔ lookup.Reachable first n
  met : ∀ p d requirement, pins.has p = true → lookup.Declares p d requirement →
    Met pins d requirement
  acyclic : ∀ n, lookup.Reachable first n → ¬ Relation.TransGen lookup.DependsOn n n

namespace Lookup

variable {lookup : Lookup} {path : List Scalar} {deps : Fields} {s s' : Progress} {out : Option Failure}
  {name : Scalar} {requirement : Json} {package : Package} {version : String}

theorem choice_eq_some (h : lookup.choice name requirement = some version) :
    lookup.Stores name version ∧ ∃ req, Requirement.ofJson requirement = .ok req ∧
      req.admitsJson (.str version) = true := by
  obtain ⟨package, req, found, read, selected⟩ := choice_eq_some_iff.mp h
  obtain ⟨stored, v, written, admitted, _⟩ := Version.latestMeeting?_eq_some selected
  exact ⟨⟨package, found, stored⟩, req, read,
    Requirement.admitsJson_str_iff.mpr ⟨v, written, admitted⟩⟩

theorem met_of_choice {pins : Table Scalar String} (h : lookup.choice name requirement = some version)
    (pinned : pins.get? name = some version) : Met pins name requirement := by
  obtain ⟨_, req, read, admitted⟩ := choice_eq_some h
  exact ⟨req, version, read, pinned, admitted⟩

theorem pins_of_enter (hs : lookup.step path s.pins name requirement = .enter package version) :
    ((s.look name).pin name version).pins = s.pins ++ [(name, version)] := by
  obtain ⟨_, unpinned, _, _⟩ := step_eq_enter hs
  exact Table.put_of_get?_eq_none unpinned version

theorem has_of_enter (hs : lookup.step path s.pins name requirement = .enter package version) (n : Scalar) :
    ((s.look name).pin name version).pins.has n = (s.pins.has n || name == n) := by
  rw [pins_of_enter hs, Table.has_append, Table.has_singleton]

theorem before_of_enter {n : Scalar}
    (hs : lookup.step path s.pins name requirement = .enter package version)
    (pinned : ((s.look name).pin name version).pins.has n = true)
    (off : (path ++ [name]).any (· == n) = false) :
    s.pins.has n = true ∧ path.any (· == n) = false := by
  rw [any_snoc, Bool.or_eq_false_iff] at off
  rw [has_of_enter hs, off.2, Bool.or_false] at pinned
  exact ⟨pinned, off.1⟩

theorem get?_of_enter (hs : lookup.step path s.pins name requirement = .enter package version) :
    ((s.look name).pin name version).pins.get? name = some version := by
  obtain ⟨_, unpinned, _, _⟩ := step_eq_enter hs
  rw [pins_of_enter hs, Table.get?_append, unpinned, Option.none_or, Table.get?_cons, if_pos BEq.rfl]

theorem distinct_of_enter (hs : lookup.step path s.pins name requirement = .enter package version)
    (h : s.pins.Distinct) : ((s.look name).pin name version).pins.Distinct := by
  rw [pins_of_enter hs]
  obtain ⟨_, unpinned, _, _⟩ := step_eq_enter hs
  exact h.snoc (by rw [Table.has, unpinned, Option.isSome_none])

theorem edges_of_enter {Edge : Scalar → Json → Prop}
    (he : ∀ d q, Edge d q → ∀ d' q', lookup.Declares d d' q' → Edge d' q')
    (hs : lookup.step path s.pins name requirement = .enter package version)
    (edge : Edge name requirement) : ∀ e ∈ package.dependencies, Edge e.1 e.2 := by
  intro e member
  obtain ⟨_, _, found, _⟩ := step_eq_enter hs
  exact he _ _ edge e.1 e.2 (declares_of_mem found member)

theorem origin_of_enter {Edge : Scalar → Json → Prop}
    (hs : lookup.step path s.pins name requirement = .enter package version)
    (edge : Edge name requirement) (n : Scalar) (v : String)
    (pinned : ((s.look name).pin name version).pins.get? n = some v) :
    s.pins.get? n = some v ∨ ∃ d q, Edge d q ∧ (d == n) = true ∧ lookup.choice d q = some v := by
  rw [pins_of_enter hs, Table.get?_append, Option.or_eq_some_iff] at pinned
  rcases pinned with before | ⟨_, last⟩
  · exact .inl before
  · obtain ⟨d, member, same⟩ := Table.mem_of_get? last
    cases List.mem_singleton.mp member
    obtain ⟨_, _, _, chosen⟩ := step_eq_enter hs
    exact .inr ⟨_, _, edge, same, chosen⟩

namespace Walk

/-- A walk only adds pins, also one that fails. -/
theorem pins_append (w : lookup.Walk path deps s s' out) : ∃ new, s'.pins = s.pins ++ new := by
  induction w with
  | done => exact ⟨[], (List.append_nil _).symm⟩
  | keep _ _ ih => exact ih
  | refuse _ => exact ⟨[], (List.append_nil _).symm⟩
  | miss _ => exact ⟨[], (List.append_nil _).symm⟩
  | sink hs _ ih =>
      obtain ⟨new, added⟩ := ih
      exact ⟨_, by rw [added, pins_of_enter hs, List.append_assoc]⟩
  | enter hs _ _ ihBelow ihRest =>
      obtain ⟨below, addedBelow⟩ := ihBelow
      obtain ⟨rest, addedRest⟩ := ihRest
      exact ⟨_, by rw [addedRest, addedBelow, pins_of_enter hs, List.append_assoc, List.append_assoc]⟩

theorem get?_mono (w : lookup.Walk path deps s s' out) (h : s.pins.get? name = some version) :
    s'.pins.get? name = some version := by
  obtain ⟨new, added⟩ := w.pins_append
  rw [added]
  exact Table.get?_append_of_some h new

theorem has_mono (w : lookup.Walk path deps s s' out) (h : s.pins.has name = true) :
    s'.pins.has name = true := by
  obtain ⟨version, pinned⟩ := Table.get?_of_has h
  exact Table.has_of_get? (w.get?_mono pinned)

theorem met_mono (w : lookup.Walk path deps s s' out) (h : Met s.pins name requirement) :
    Met s'.pins name requirement := by
  obtain ⟨new, added⟩ := w.pins_append
  rw [added]
  exact h.append new

theorem distinct (w : lookup.Walk path deps s s' out) (h : s.pins.Distinct) : s'.pins.Distinct := by
  induction w with
  | done => exact h
  | keep _ _ ih => exact ih h
  | refuse _ => exact h
  | miss _ => exact h
  | sink hs _ ih => exact ih (distinct_of_enter hs h)
  | enter hs _ _ ihBelow ihRest => exact ihRest (ihBelow (distinct_of_enter hs h))

/-- A walk that ends without a failure has met each of its dependencies off its path. -/
theorem met (w : lookup.Walk path deps s s' out) (ends : out = none) :
    ∀ e ∈ deps, path.any (· == e.1) = false ∧ Met s'.pins e.1 e.2 := by
  induction w with
  | done => intro e member; cases member
  | keep hs rest ih =>
      intro e member
      rcases List.mem_cons.mp member with rfl | later
      · obtain ⟨fresh, kept⟩ := step_eq_keep hs
        exact ⟨fresh, rest.met_mono kept⟩
      · exact ih ends e later
  | refuse _ => cases ends
  | miss _ => cases ends
  | sink _ _ _ => cases ends
  | enter hs below rest _ ihRest =>
      intro e member
      rcases List.mem_cons.mp member with rfl | later
      · obtain ⟨fresh, _, _, chosen⟩ := step_eq_enter hs
        exact ⟨fresh, rest.met_mono (below.met_mono (met_of_choice chosen (get?_of_enter hs)))⟩
      · exact ihRest ends e later

/-- Every package that a walk pins has its own dependencies met when the walk ends. -/
theorem closed (hl : lookup.ByName) (w : lookup.Walk path deps s s' out) (ends : out = none) :
    ∀ n, s'.pins.has n = true → s.pins.has n = true ∨
      ∃ package, lookup n = some package ∧ ∀ e ∈ package.dependencies, Met s'.pins e.1 e.2 := by
  induction w with
  | done => intro n pinned; exact .inl pinned
  | keep _ _ ih => exact ih ends
  | refuse _ => cases ends
  | miss _ => cases ends
  | sink _ _ _ => cases ends
  | @enter path name requirement rest s mid s' package version out hs below after ihBelow ihRest =>
      intro n pinned
      rcases ihRest ends n pinned with pinned | finished
      case inr => exact .inr finished
      rcases ihBelow rfl n pinned with pinned | ⟨package, found, finished⟩
      case inr => exact .inr ⟨package, found, fun e member => after.met_mono (finished e member)⟩
      rw [has_of_enter hs, Bool.or_eq_true] at pinned
      rcases pinned with before | same
      · exact .inl before
      · obtain ⟨_, _, found, _⟩ := step_eq_enter hs
        exact .inr ⟨package, (hl.same same).symm.trans found,
          fun e member => after.met_mono (below.met rfl e member).2⟩

/-- Every pin comes from a dependency that the walk has come to, in any set of dependencies that goes on
to what their packages declare. -/
theorem origin (Edge : Scalar → Json → Prop)
    (he : ∀ d q, Edge d q → ∀ d' q', lookup.Declares d d' q' → Edge d' q')
    (w : lookup.Walk path deps s s' out) (hd : ∀ e ∈ deps, Edge e.1 e.2) :
    ∀ n v, s'.pins.get? n = some v → s.pins.get? n = some v ∨
      ∃ d q, Edge d q ∧ (d == n) = true ∧ lookup.choice d q = some v := by
  induction w with
  | done => intro n v pinned; exact .inl pinned
  | keep _ _ ih => exact ih fun e member => hd e (List.mem_cons_of_mem _ member)
  | refuse _ => intro n v pinned; exact .inl pinned
  | miss _ => intro n v pinned; exact .inl pinned
  | sink hs _ ih =>
      intro n v pinned
      have edge := hd _ List.mem_cons_self
      rcases ih (edges_of_enter he hs edge) n v pinned with pinned | known
      · exact origin_of_enter hs edge n v pinned
      · exact .inr known
  | enter hs _ _ ihBelow ihRest =>
      intro n v pinned
      have edge := hd _ List.mem_cons_self
      rcases ihRest (fun e member => hd e (List.mem_cons_of_mem _ member)) n v pinned with pinned | known
      case inr => exact .inr known
      rcases ihBelow (edges_of_enter he hs edge) n v pinned with pinned | known
      · exact origin_of_enter hs edge n v pinned
      · exact .inr known

/-- What is pinned off the path is finished: every chain of dependencies from it ends. A walk keeps this,
since it comes off a package only when all dependencies of the package are finished. -/
theorem grounded (hl : lookup.ByName) (w : lookup.Walk path deps s s' out) (ends : out = none)
    (finished : ∀ n, s.pins.has n = true → path.any (· == n) = false → lookup.Grounded n) :
    ∀ n, s'.pins.has n = true → path.any (· == n) = false → lookup.Grounded n := by
  induction w with
  | done => exact finished
  | keep _ _ ih => exact ih ends finished
  | refuse _ => cases ends
  | miss _ => cases ends
  | sink _ _ _ => cases ends
  | @enter path name requirement rest s mid s' package version out hs below after ihBelow ihRest =>
      obtain ⟨_, _, found, _⟩ := step_eq_enter hs
      have finishedBelow := ihBelow rfl fun n pinned off =>
        finished n (before_of_enter hs pinned off).1 (before_of_enter hs pinned off).2
      -- the dependencies of the entered package are off the longer path, so they are finished already
      have ended : lookup.Grounded name :=
        grounded_of_deps hl found fun e member =>
          finishedBelow e.1 (below.met rfl e member).2.has (below.met rfl e member).1
      refine ihRest ends fun n pinned off => ?_
      by_cases same : (name == n) = true
      · exact ended.congr hl same
      · refine finishedBelow n pinned ?_
        rw [any_snoc, off, Bool.false_or]
        exact eq_false_of_ne_true same

/-- A walk that starts from its first names alone settles everything that can be reached from them. -/
theorem resolution (hl : lookup.ByName) {first : Scalar → Prop}
    (hf : ∀ a b, (a == b) = true → first a → first b) (w : lookup.Walk path deps s s' none)
    (distinct : s.pins.Distinct)
    (onPath : ∀ n, path.any (· == n) = s.pins.has n)
    (pinned : ∀ n, s.pins.has n = true →
      first n ∧ ∃ package, lookup n = some package ∧ package.dependencies = deps)
    (covered : ∀ n, first n → s.pins.has n = true ∨ deps.has n = true)
    (reached : ∀ e ∈ deps, lookup.Reachable first e.1) : lookup.Resolution first s'.pins := by
  have metOf (p d : Scalar) (q : Json) (hp : s'.pins.has p = true) (declared : lookup.Declares p d q) :
      Met s'.pins d q := by
    obtain ⟨package, found, member⟩ := declared
    rcases w.closed hl rfl p hp with before | ⟨package', found', finished⟩
    · obtain ⟨_, package', found', same⟩ := pinned p before
      cases found.symm.trans found'
      exact (w.met rfl (d, q) (same ▸ member)).2
    · cases found.symm.trans found'
      exact finished (d, q) member
  have hasOf (n : Scalar) (h : lookup.Reachable first n) : s'.pins.has n = true := by
    induction h with
    | start h =>
        rcases covered _ h with before | listed
        · exact w.has_mono before
        · obtain ⟨e, member, same⟩ := Table.has_iff_mem.mp listed
          exact (Table.has_congr same _).symm.trans (w.met rfl e member).2.has
    | step _ edge ih =>
        obtain ⟨d, q, declared, same⟩ := edge
        exact (Table.has_congr same _).symm.trans (metOf _ d q ih declared).has
  refine ⟨w.distinct distinct, fun n => ⟨?_, hasOf n⟩, metOf, ?_⟩
  · intro hn
    obtain ⟨v, found⟩ := Table.get?_of_has hn
    have origins := w.origin (fun d _ => lookup.Reachable first d)
      (fun d _ reach d' _ declared => .step reach declared.dependsOn) reached
    rcases origins n v found with before | ⟨d, _, reach, same, _⟩
    · exact .start (pinned n (Table.has_of_get? before)).1
    · exact reach.congr hf same
  · intro n reach
    have offPath : ∀ n, s'.pins.has n = true → path.any (· == n) = false → lookup.Grounded n :=
      w.grounded hl rfl fun n before off => absurd before (by rw [← onPath n, off]; decide)
    cases on : path.any (· == n) with
    | false => exact (offPath n (hasOf n reach) on).not_transGen
    -- a first name never leaves the path, but everything that its package declares is off it
    | true =>
        obtain ⟨_, package, found, same⟩ := pinned n ((onPath n).symm.trans on)
        refine Grounded.not_transGen (grounded_of_deps hl found fun e member => ?_)
        have met := w.met rfl e (same ▸ member)
        exact offPath e.1 met.2.has met.1

theorem stores (hl : lookup.ByName) (w : lookup.Walk path deps s s' out) :
    ∀ n v, s'.pins.get? n = some v → s.pins.get? n = some v ∨ lookup.Stores n v := by
  intro n v pinned
  have origins := w.origin (fun _ _ => True) (fun _ _ _ _ _ _ => trivial) (fun _ _ => trivial)
  rcases origins n v pinned with before | ⟨d, q, _, same, chosen⟩
  · exact .inl before
  · obtain ⟨⟨package, found, stored⟩, _⟩ := choice_eq_some chosen
    exact .inr ⟨package, (hl.same same).symm.trans found, stored⟩

variable {root : Scalar}

theorem resolution_of_root (hl : lookup.ByName) (found : lookup root = some package)
    (same : (name == root) = true)
    (w : lookup.Walk [name] package.dependencies (.ofRoot root name package) s none) :
    lookup.Resolution (fun n => (n == root) = true) s.pins := by
  refine w.resolution hl (fun a b hab ha => BEq.trans (BEq.symm hab) ha)
    (List.pairwise_singleton _ _) (fun n => ?_) (fun n hn => ?_) (fun n hn => .inl ?_) fun e member => ?_
  · rw [Progress.has_ofRoot, any_singleton]
  · rw [Progress.has_ofRoot] at hn
    have back := BEq.trans (BEq.symm hn) same
    exact ⟨back, package, (hl.same back).trans found, rfl⟩
  · rw [Progress.has_ofRoot]
    exact BEq.trans same (BEq.symm hn)
  · exact .step (.start BEq.rfl) (declares_of_mem found member).dependsOn

theorem stores_of_root (hl : lookup.ByName) (same : (name == root) = true)
    (w : lookup.Walk [name] package.dependencies (.ofRoot root name package) s none) {n : Scalar}
    {v : String} (other : (n == root) = false) (pinned : s.pins.get? n = some v) : lookup.Stores n v := by
  rcases w.stores hl n v pinned with before | stored
  · have back : (name == n) = true := (Progress.has_ofRoot root name package n).symm.trans
      (Table.has_of_get? before)
    rw [BEq.trans (BEq.symm back) same] at other
    cases other
  · exact stored

end Walk

end Lookup

variable {σ : Type} {src : Source σ} {state : σ} {lookup : Lookup}

theorem Progress.answer_eq_ok {s : Progress} {out : Option Failure} {pins : Table Scalar String}
    (h : s.answer out = .ok pins) : out = none ∧ s.pins = pins := by
  cases out with
  | none => exact ⟨rfl, Except.ok.inj h⟩
  | some failure => cases h

theorem Source.Constant.walk_of_resolve_ok (hc : src.Constant state lookup) {root : Scalar}
    {pins : Table Scalar String} (h : (resolve src (.scalar root) state).2 = .ok pins) :
    ∃ package name s, lookup root = some package ∧ package.name = .scalar name ∧
      (name == root) = true ∧ s.pins = pins ∧
      lookup.Walk [name] package.dependencies (.ofRoot root name package) s none := by
  cases found : lookup root with
  | none =>
      rw [hc.resolve_missing found] at h
      cases h
  | some package =>
      obtain ⟨name, named, same, ⟨deep, _⟩ | ⟨s, out, walk, answer, _⟩⟩ := hc.resolve_found found
      · rw [deep] at h
        cases h
      · rw [answer] at h
        obtain ⟨rfl, pins_eq⟩ := Progress.answer_eq_ok h
        exact ⟨package, name, s, rfl, named, same, pins_eq, walk⟩

theorem Source.Constant.walk_of_resolveRequirements_ok (hc : src.Constant state lookup)
    {requirements : Fields} {pins : Table Scalar String}
    (h : (resolveRequirements src requirements state).2 = .ok pins) :
    ∃ s, s.pins = pins ∧ lookup.Walk [] requirements ⟨[], []⟩ s none := by
  obtain ⟨deep, _⟩ | ⟨s, out, walk, answer, _⟩ := hc.resolveRequirements_walks requirements
  · rw [deep] at h
    cases h
  · rw [answer] at h
    obtain ⟨rfl, pins_eq⟩ := Progress.answer_eq_ok h
    exact ⟨s, pins_eq, walk⟩

/-- A resolution that succeeds pins its root to the latest version, pins exactly what can be reached, meets
every dependency that is declared there, and has found no cycle. So does a resolution of requirements, from
the names of the requirements and without a root. -/
theorem resolution_sound (hc : src.Constant state lookup) :
    (∀ root pins, (resolve src (.scalar root) state).2 = .ok pins →
      (∃ package, lookup root = some package ∧
        pins.get? root = some (Version.latestText package.versions)) ∧
      lookup.Resolution (fun n => (n == root) = true) pins ∧
      ∀ n version, (n == root) = false → pins.get? n = some version → lookup.Stores n version) ∧
    (∀ requirements pins, (resolveRequirements src requirements state).2 = .ok pins →
      (∀ d requirement, (d, requirement) ∈ requirements → Met pins d requirement) ∧
      lookup.Resolution (fun n => requirements.has n = true) pins ∧
      ∀ n version, pins.get? n = some version → lookup.Stores n version) := by
  have hl := hc.toByName
  refine ⟨?_, ?_⟩
  · intro root pins h
    obtain ⟨package, name, s, found, _, same, rfl, walk⟩ := hc.walk_of_resolve_ok h
    have pinned : (Progress.ofRoot root name package).pins.get? root =
        some (Version.latestText package.versions) := if_pos same
    exact ⟨⟨package, found, walk.get?_mono pinned⟩, walk.resolution_of_root hl found same,
      fun n version other hn => walk.stores_of_root hl same other hn⟩
  · intro requirements pins h
    obtain ⟨s, rfl, walk⟩ := hc.walk_of_resolveRequirements_ok h
    refine ⟨fun d q member => (walk.met rfl (d, q) member).2, ?_, ?_⟩
    · exact walk.resolution hl (fun a b hab ha => (Table.has_congr hab _).symm.trans ha)
        List.Pairwise.nil (fun n => rfl) (fun n hn => nomatch hn) (fun n hn => .inr hn)
        fun e member => .start (Table.has_of_mem member)
    · intro n version hn
      rcases walk.stores hl n version hn with before | stored
      · cases before
      · exact stored

/-- A package whose record holds nothing but texts, under its name. -/
def Package.ofTexts (name : String) (deps : List (String × String)) (versions : List String) :
    Scalar × Package :=
  (.str name, ⟨.str name, deps.map fun d => (.str d.1, .str d.2),
    versions.map fun v => ⟨v, .null, .null⟩, .null, .null⟩)

/-- Two packages that share a dependency. -/
def diamond : Table Scalar Package :=
  [Package.ofTexts "app" [("left", "~> 1.0"), ("right", ">= 1.0.0")] ["1.0.0", "1.2.0"],
    Package.ofTexts "left" [("base", "< 2.0.0")] ["1.1.0"],
    Package.ofTexts "right" [("base", ">= 1.0.0")] ["1.0.0", "3.0.0"],
    Package.ofTexts "base" [] ["2.1.0", "1.9.0", "1.0.0"]]

def diamondPins : Table Scalar String :=
  [("app", "1.2.0"), ("left", "1.1.0"), ("base", "1.9.0"), ("right", "3.0.0")]

theorem diamond_constant : Source.ofTable.Constant diamond (.ofTable diamond) :=
  Source.ofTable_constant (by decide)

theorem resolution_sound_diamond :
    Source.ofTable.Constant diamond (.ofTable diamond) ∧
      (resolve Source.ofTable (.str "app") diamond).2 = .ok diamondPins ∧
      (Lookup.ofTable diamond).Resolution (fun n => (n == .str "app") = true) diamondPins :=
  ⟨diamond_constant, rfl, ((resolution_sound diamond_constant).1 (.str "app") diamondPins rfl).2.1⟩

end ExprRegistry
