import ExprRegistry.Proofs.Resolve.FirstFailure
import ExprRegistry.Proofs.Resolve.Resemblance

/-!
What resolutions come to. A walk and a tree are determined by what is found under the names, so two constant
sources that answer alike cannot be told apart, whatever their bounds are. Where all names are texts a resolution
has a result or ends with a resolution error, and every package has a tree. Main statements: `resolve_same`,
`resolve_total` and `dependencyTree_total`.
-/

namespace ExprRegistry

namespace Lookup

variable {lookup : Lookup} {path : List Scalar} {deps : Fields} {s s' t : Progress}
  {out other : Option Failure} {failure : Failure}

/-- A walk is determined by where it begins. -/
theorem Walk.unique (w : lookup.Walk path deps s s' out) (v : lookup.Walk path deps s t other) :
    s' = t ∧ out = other := by
  induction w generalizing t other with
  | done =>
      cases v
      exact ⟨rfl, rfl⟩
  | keep hs _ ih =>
      cases v with
      | keep _ later => exact ih later
      | refuse hs' => cases hs.symm.trans hs'
      | miss hs' => cases hs.symm.trans hs'
      | sink hs' => cases hs.symm.trans hs'
      | enter hs' => cases hs.symm.trans hs'
  | refuse hs =>
      cases v with
      | keep hs' => cases hs.symm.trans hs'
      | refuse hs' =>
          cases hs.symm.trans hs'
          exact ⟨rfl, rfl⟩
      | miss hs' => cases hs.symm.trans hs'
      | sink hs' => cases hs.symm.trans hs'
      | enter hs' => cases hs.symm.trans hs'
  | miss hs =>
      cases v with
      | keep hs' => cases hs.symm.trans hs'
      | refuse hs' => cases hs.symm.trans hs'
      | miss hs' =>
          cases hs.symm.trans hs'
          exact ⟨rfl, rfl⟩
      | sink hs' => cases hs.symm.trans hs'
      | enter hs' => cases hs.symm.trans hs'
  | sink hs _ ih =>
      cases v with
      | keep hs' => cases hs.symm.trans hs'
      | refuse hs' => cases hs.symm.trans hs'
      | miss hs' => cases hs.symm.trans hs'
      | sink hs' below =>
          cases hs.symm.trans hs'
          exact ih below
      | enter hs' below _ =>
          cases hs.symm.trans hs'
          cases (ih below).2
  | enter hs _ _ ihBelow ihRest =>
      cases v with
      | keep hs' => cases hs.symm.trans hs'
      | refuse hs' => cases hs.symm.trans hs'
      | miss hs' => cases hs.symm.trans hs'
      | sink hs' below =>
          cases hs.symm.trans hs'
          cases (ihBelow below).2
      | enter hs' below later =>
          cases hs.symm.trans hs'
          obtain ⟨rfl, _⟩ := ihBelow below
          exact ihRest later

/-- Packages declare dependencies on texts only. -/
def Textual (lookup : Lookup) : Prop :=
  ∀ {n package}, lookup n = some package → ∀ e ∈ package.dependencies, e.1.isText = true

theorem Textual.edge (texts : lookup.Textual) {root d : Scalar} {requirement : Json}
    (edge : lookup.Edge root d requirement) : d.isText = true := by
  obtain ⟨p, _, package, found, member⟩ := edge
  exact texts found _ member

/-- Among texts a walk that fails ends with a resolution error. -/
theorem Walk.resolve_of_texts (w : lookup.Walk path deps s s' out) (texts : lookup.Textual)
    (named : ∀ n ∈ path, n.isText = true) (declared : ∀ e ∈ deps, e.1.isText = true)
    (ends : out = some failure) : ∃ error, failure = .resolve error := by
  induction w with
  | done => cases ends
  | keep _ _ ih => exact ih named (fun e member => declared e (List.mem_cons_of_mem _ member)) ends
  | @refuse path name requirement rest s failure hs =>
      cases ends
      have longer : ∀ n ∈ path ++ [name], n.isText = true :=
        List.forall_mem_append.mpr ⟨named, List.forall_mem_singleton.mpr (declared _ List.mem_cons_self)⟩
      exact resolve_of_refuse longer hs
  | miss hs =>
      cases ends
      exact resolve_of_miss hs
  | @sink path name requirement rest s s' package version failure hs _ ih =>
      obtain ⟨_, _, found, _⟩ := step_eq_enter hs
      have longer : ∀ n ∈ path ++ [name], n.isText = true :=
        List.forall_mem_append.mpr ⟨named, List.forall_mem_singleton.mpr (declared _ List.mem_cons_self)⟩
      exact ih longer (texts found) ends
  | enter _ _ _ _ ihRest =>
      exact ihRest named (fun e member => declared e (List.mem_cons_of_mem _ member)) ends

end Lookup

variable {σ τ : Type} {src : Source σ} {other : Source τ} {state : σ} {twin : τ} {lookup : Lookup}

namespace Source.Constant

theorem resolve_of_missing (hc : src.Constant state lookup) {root : Scalar} (missing : lookup root = none) :
    (resolve src (.scalar root) state).2 = .error (.resolve (.rootNotFound (.scalar root))) ∧
      (resolve src (.scalar root) state).1.lookups = [.scalar root] := by
  have started : src.Constant (Run.start state).source lookup := hc
  obtain ⟨run, fetched, _, looked⟩ := started.fetch root
  rw [resolve, fetched, missing]
  exact ⟨rfl, congrArg Progress.looked looked⟩

theorem dependencyTree_of_missing (hc : src.Constant state lookup) {root : Scalar} (missing : lookup root = none) :
    (dependencyTree src (.scalar root) state).2 = .error (.resolve (.rootNotFound (.scalar root))) ∧
      (dependencyTree src (.scalar root) state).1.lookups = [.scalar root] := by
  have started : src.Constant (Run.start state).source lookup := hc
  obtain ⟨run, fetched, _, looked⟩ := started.fetch root
  rw [dependencyTree, fetched, missing]
  exact ⟨rfl, congrArg Progress.looked looked⟩

/-- The walk of a resolution from a package, for a source with room enough. -/
theorem resolve_walk (hc : src.Constant state lookup) (finite : src.Finite state lookup) {root : Scalar}
    {package : Package} (found : lookup root = some package) :
    ∃ name, package.name = .scalar name ∧ (name == root) = true ∧
      ∃ s out, lookup.Walk [name] package.dependencies (.ofRoot root name package) s out ∧
        (resolve src (.scalar root) state).2 = s.answer out ∧
        (resolve src (.scalar root) state).1.lookups = s.looked := by
  obtain ⟨name, named, same, ⟨_, infinite⟩ | walk⟩ := hc.resolve_found found
  · exact absurd finite infinite
  · exact ⟨name, named, same, walk⟩

theorem resolveRequirements_walk (hc : src.Constant state lookup) (finite : src.Finite state lookup)
    (requirements : Fields) :
    ∃ s out, lookup.Walk [] requirements ⟨[], []⟩ s out ∧
      (resolveRequirements src requirements state).2 = s.answer out ∧
      (resolveRequirements src requirements state).1.lookups = s.looked := by
  obtain ⟨_, infinite⟩ | walk := hc.resolveRequirements_walks requirements
  · exact absurd finite infinite
  · exact walk

/-- The tree of a package, for a source with room enough. -/
theorem dependencyTree_grows (hc : src.Constant state lookup) (finite : src.Finite state lookup)
    (texts : lookup.Textual) {root : String} {package : Package} (found : lookup root = some package) :
    ∃ looked children, lookup.Grows [.str root] package.dependencies [.str root] looked children ∧
      (dependencyTree src (.str root) state).2 =
        .ok (.node (.str root) (Version.latestText package.versions) .null children) ∧
      (dependencyTree src (.str root) state).1.lookups = looked := by
  obtain ⟨name, named, same⟩ := hc.name_eq found
  cases Scalar.eq_str_of_same same
  obtain ⟨looked, children, grown⟩ := Lookup.exists_grows finite (fun _ _ edge => texts.edge edge)
    (src.depthBound state) (Lookup.simple_singleton found) (by rw [depthBound, List.length_singleton]; omega)
    (List.forall_mem_singleton.mpr rfl)
    (fun e member => ⟨.str root, .start BEq.rfl, Lookup.declares_of_mem found member⟩) [.str root]
  exact ⟨looked, children, grown, hc.dependencyTree_of_grows finite found named grown⟩

/-! ### Sources that answer alike -/

theorem resolve_same (hc : src.Constant state lookup) (finite : src.Finite state lookup)
    (hc' : other.Constant twin lookup) (finite' : other.Finite twin lookup) (root : Scalar) :
    SameResolution (resolve src (.scalar root) state) (resolve other (.scalar root) twin) := by
  cases found : lookup root with
  | none =>
      obtain ⟨result, looked⟩ := hc.resolve_of_missing found
      obtain ⟨result', looked'⟩ := hc'.resolve_of_missing found
      exact ⟨result.trans result'.symm, looked.trans looked'.symm⟩
  | some package =>
      obtain ⟨name, named, _, s, out, walk, result, looked⟩ := hc.resolve_walk finite found
      obtain ⟨name', named', _, s', out', walk', result', looked'⟩ := hc'.resolve_walk finite' found
      cases named.symm.trans named'
      obtain ⟨rfl, rfl⟩ := walk.unique walk'
      exact ⟨result.trans result'.symm, looked.trans looked'.symm⟩

theorem resolveRequirements_same (hc : src.Constant state lookup) (finite : src.Finite state lookup)
    (hc' : other.Constant twin lookup) (finite' : other.Finite twin lookup) (requirements : Fields) :
    SameResolution (resolveRequirements src requirements state)
      (resolveRequirements other requirements twin) := by
  obtain ⟨s, out, walk, result, looked⟩ := hc.resolveRequirements_walk finite requirements
  obtain ⟨s', out', walk', result', looked'⟩ := hc'.resolveRequirements_walk finite' requirements
  obtain ⟨rfl, rfl⟩ := walk.unique walk'
  exact ⟨result.trans result'.symm, looked.trans looked'.symm⟩

theorem dependencyTree_same (hc : src.Constant state lookup) (finite : src.Finite state lookup)
    (hc' : other.Constant twin lookup) (finite' : other.Finite twin lookup) (texts : lookup.Textual)
    (root : String) :
    SameResolution (dependencyTree src (.str root) state) (dependencyTree other (.str root) twin) := by
  cases found : lookup root with
  | none =>
      obtain ⟨result, looked⟩ := hc.dependencyTree_of_missing found
      obtain ⟨result', looked'⟩ := hc'.dependencyTree_of_missing found
      exact ⟨result.trans result'.symm, looked.trans looked'.symm⟩
  | some package =>
      obtain ⟨_, _, grown, result, looked⟩ := hc.dependencyTree_grows finite texts found
      obtain ⟨_, _, grown', result', looked'⟩ := hc'.dependencyTree_grows finite' texts found
      obtain ⟨rfl, rfl⟩ := grown.unique grown'
      exact ⟨result.trans result'.symm, looked.trans looked'.symm⟩

/-! ### Resolutions among texts -/

theorem resolve_total (hc : src.Constant state lookup) (finite : src.Finite state lookup)
    (texts : lookup.Textual) (root : String) :
    (∃ pins, (resolve src (.str root) state).2 = .ok pins) ∨
      ∃ error, (resolve src (.str root) state).2 = .error (.resolve error) := by
  cases found : lookup root with
  | none => exact .inr ⟨_, (hc.resolve_of_missing found).1⟩
  | some package =>
      obtain ⟨name, _, same, s, out, walk, result, _⟩ := hc.resolve_walk finite found
      cases Scalar.eq_str_of_same same
      cases out with
      | none => exact .inl ⟨s.pins, result⟩
      | some failure =>
          obtain ⟨error, rfl⟩ :=
            walk.resolve_of_texts texts (List.forall_mem_singleton.mpr rfl) (texts found) rfl
          exact .inr ⟨error, result⟩

theorem resolveRequirements_total (hc : src.Constant state lookup) (finite : src.Finite state lookup)
    (texts : lookup.Textual) {requirements : Fields} (declared : ∀ e ∈ requirements, e.1.isText = true) :
    (∃ pins, (resolveRequirements src requirements state).2 = .ok pins) ∨
      ∃ error, (resolveRequirements src requirements state).2 = .error (.resolve error) := by
  obtain ⟨s, out, walk, result, _⟩ := hc.resolveRequirements_walk finite requirements
  cases out with
  | none => exact .inl ⟨s.pins, result⟩
  | some failure =>
      obtain ⟨error, rfl⟩ := walk.resolve_of_texts texts nofun declared rfl
      exact .inr ⟨error, result⟩

theorem dependencyTree_total (hc : src.Constant state lookup) (finite : src.Finite state lookup)
    (texts : lookup.Textual) (root : String) :
    (∃ t, (dependencyTree src (.str root) state).2 = .ok t) ∨
      ∃ error, (dependencyTree src (.str root) state).2 = .error (.resolve error) := by
  cases found : lookup root with
  | none => exact .inr ⟨_, (hc.dependencyTree_of_missing found).1⟩
  | some package =>
      obtain ⟨_, _, _, result, _⟩ := hc.dependencyTree_grows finite texts found
      exact .inl ⟨_, result⟩

end Source.Constant

end ExprRegistry
