import ExprRegistry.Proofs.Resolve.Walk
import ExprRegistry.Resolve.Tree

/-!
Dependency trees as a relation. A branch of a tree has the acts of a walk that pins nothing, and what stops
a walk is a leaf of the tree. Main statements: `Source.Constant.grows` and `Source.Constant.grow_of_grows`,
that the trees of the relation are those of the program where no more packages are there than its bound
allows.
-/

namespace ExprRegistry

variable {σ : Type}

/-- The trees that grow from some dependencies below a path, with what is looked up for them. -/
inductive Lookup.Grows (lookup : Lookup) :
    List Scalar → Fields → List Json → List Json → List Tree → Prop
  | done {path looked} : Grows lookup path [] looked looked []
  | refuse {path name requirement rest looked looked' error trees} :
      lookup.step path [] name requirement = .refuse (.resolve error) →
      Grows lookup path rest looked looked' trees →
      Grows lookup path ((name, requirement) :: rest) looked looked'
        (.failed name requirement error :: trees)
  | miss {path name requirement rest looked looked' error trees} :
      lookup.step path [] name requirement = .miss (.resolve error) →
      Grows lookup path rest (looked ++ [.scalar name]) looked' trees →
      Grows lookup path ((name, requirement) :: rest) looked looked'
        (.failed name requirement error :: trees)
  | enter {path name requirement rest looked mid looked' package version children trees} :
      lookup.step path [] name requirement = .enter package version →
      Grows lookup (path ++ [name]) package.dependencies (looked ++ [.scalar name]) mid children →
      Grows lookup path rest mid looked' trees →
      Grows lookup path ((name, requirement) :: rest) looked looked'
        (.node package.name version requirement children :: trees)

variable {src : Source σ} {lookup : Lookup}

def Grown.node (package : Package) (version : String) (requirement : Json) :
    Grown σ (List Tree) → Grown σ Tree
  | (run, .error failure) => (run, .error failure)
  | (run, .ok children) => (run, .ok (.node package.name version requirement children))

/-- The program grows a branch as the step says. There are no pins, so nothing is kept. -/
theorem Source.Constant.grow_succ {run : Run σ} (hc : src.Constant run.source lookup) (depth : Nat)
    (path : List Scalar) (name : Scalar) (requirement : Json) :
    match lookup.step path [] name requirement with
    | .keep => False
    | .refuse failure =>
      grow src (depth + 1) (path.map .scalar) name requirement run = endBranch name requirement run failure
    | .miss failure => ∃ run' : Run σ,
      grow src (depth + 1) (path.map .scalar) name requirement run =
          endBranch name requirement run' failure ∧
        src.Constant run'.source lookup ∧ run'.lookups = run.lookups ++ [.scalar name]
    | .enter package version => ∃ run' : Run σ,
      grow src (depth + 1) (path.map .scalar) name requirement run =
          Grown.node package version requirement
            (eachBranch (grow src depth ((path ++ [name]).map .scalar)) package.dependencies run') ∧
        src.Constant run'.source lookup ∧ run'.lookups = run.lookups ++ [.scalar name] := by
  obtain ⟨run', fetched, hc', looked⟩ := hc.fetch name
  have looked : run'.lookups = run.lookups ++ [.scalar name] := congrArg Progress.looked looked
  simp only [grow, Lookup.step, any_names, List.map_append, List.map_cons, List.map_nil, fetched,
    Table.get?_nil]
  by_cases met : path.any (· == name) = true
  · simp only [met, if_true]
  simp only [met, Bool.false_eq_true, if_false]
  cases Requirement.ofJson requirement with
  | error m => rfl
  | ok req =>
      cases lookup name with
      | none => exact ⟨run', rfl, hc', looked⟩
      | some package =>
          cases hv : Version.latestMeeting? Version.ofText? req package.versions with
          | none => simp only [hv]; exact ⟨_, rfl, hc', looked⟩
          | some version =>
              simp only [hv]
              exact ⟨_, rfl, hc', looked⟩

theorem endBranch_eq_ok {name : Scalar} {requirement : Json} {run run' : Run σ} {failure : Failure}
    {t : Tree} (h : endBranch name requirement run failure = (run', .ok t)) :
    ∃ error, failure = .resolve error ∧ t = .failed name requirement error ∧
      run'.lookups = run.lookups ∧ run'.source = run.source := by
  cases failure with
  | resolve error => cases h; exact ⟨error, rfl, rfl, rfl, rfl⟩
  | lookup e => cases h
  | unfit how => cases h
  | tooDeep => cases h

theorem endBranch_resolve (name : Scalar) (requirement : Json) (run : Run σ) (error : ResolveError) :
    ∃ run' : Run σ,
      endBranch name requirement run (.resolve error) = (run', .ok (.failed name requirement error)) ∧
      run'.lookups = run.lookups ∧ run'.source = run.source := ⟨_, rfl, rfl, rfl⟩

/-- The trees that the program grows are trees of the relation. -/
theorem Source.Constant.grows {depth : Nat} {path : List Scalar} {deps : Fields} {run run' : Run σ}
    {trees : List Tree} (hc : src.Constant run.source lookup)
    (h : eachBranch (grow src depth (path.map .scalar)) deps run = (run', .ok trees)) :
    src.Constant run'.source lookup ∧ lookup.Grows path deps run.lookups run'.lookups trees := by
  induction depth generalizing path deps run run' trees with
  | zero =>
      cases deps with
      | nil => cases h; exact ⟨hc, .done⟩
      | cons dependency rest => cases h
  | succ depth ihDepth =>
      induction deps generalizing run trees with
      | nil => cases h; exact ⟨hc, .done⟩
      | cons dependency rest ih =>
          obtain ⟨name, requirement⟩ := dependency
          rw [eachBranch] at h
          split at h
          case h_1 => cases h
          case h_2 after tree branch =>
            split at h
            case h_1 => cases h
            case h_2 last trees' others =>
              cases h
              have acts := hc.grow_succ depth path name requirement
              cases hs : lookup.step path [] name requirement with
              | keep => rw [hs] at acts; exact acts.elim
              | refuse failure =>
                  rw [hs] at acts
                  obtain ⟨error, rfl, rfl, looked, source⟩ := endBranch_eq_ok (acts.symm.trans branch)
                  obtain ⟨hl, later⟩ := ih (source ▸ hc) others
                  exact ⟨hl, .refuse hs (looked ▸ later)⟩
              | miss failure =>
                  rw [hs] at acts
                  obtain ⟨missed, acts, hm, looked'⟩ := acts
                  obtain ⟨error, rfl, rfl, looked, source⟩ := endBranch_eq_ok (acts.symm.trans branch)
                  obtain ⟨hl, later⟩ := ih (source ▸ hm) others
                  exact ⟨hl, .miss hs (looked' ▸ looked ▸ later)⟩
              | enter package version =>
                  rw [hs] at acts
                  obtain ⟨entered, acts, he, looked⟩ := acts
                  rw [acts] at branch
                  cases hi : eachBranch (grow src depth ((path ++ [name]).map .scalar))
                      package.dependencies entered with
                  | mk mid inner =>
                      rw [hi] at branch
                      cases inner with
                      | error failure => cases branch
                      | ok children =>
                          cases branch
                          obtain ⟨hm, below⟩ := ihDepth he hi
                          obtain ⟨hl, later⟩ := ih hm others
                          exact ⟨hl, .enter hs (looked ▸ below) later⟩

/-- A path of different names is not so long that nothing can be grown below it. -/
theorem Lookup.AtMost.exists_depth {bound depth : Nat} {path : List Scalar} (few : lookup.AtMost bound)
    (simple : lookup.Simple path) (room : bound < path.length + depth) : ∃ below, depth = below + 1 := by
  have short := few path simple
  exact Nat.exists_eq_add_one.mpr (by omega)

/-- The program grows every tree of the relation below a path whose names are all different. -/
theorem Source.Constant.grow_of_grows {bound depth : Nat} {path : List Scalar} {deps : Fields}
    {looked looked' : List Json} {trees : List Tree} (few : lookup.AtMost bound)
    (g : lookup.Grows path deps looked looked' trees) (simple : lookup.Simple path)
    (room : bound < path.length + depth) {run : Run σ} (hc : src.Constant run.source lookup)
    (started : run.lookups = looked) :
    ∃ run' : Run σ, eachBranch (grow src depth (path.map .scalar)) deps run = (run', .ok trees) ∧
      src.Constant run'.source lookup ∧ run'.lookups = looked' := by
  induction g generalizing depth run with
  | done => exact ⟨run, rfl, hc, started⟩
  | @refuse path name requirement rest looked looked' error trees hs _ ih =>
      obtain ⟨depth, rfl⟩ := few.exists_depth simple room
      have acts := hc.grow_succ depth path name requirement
      rw [hs] at acts
      obtain ⟨ended, leaf, looked, source⟩ := endBranch_resolve name requirement run error
      obtain ⟨last, later, hl, final⟩ := ih simple room (source ▸ hc) (looked.trans started)
      exact ⟨last, by simp only [eachBranch, acts, leaf, later], hl, final⟩
  | @miss path name requirement rest looked looked' error trees hs _ ih =>
      obtain ⟨depth, rfl⟩ := few.exists_depth simple room
      have acts := hc.grow_succ depth path name requirement
      rw [hs] at acts
      obtain ⟨missed, acts, hm, added⟩ := acts
      obtain ⟨ended, leaf, looked, source⟩ := endBranch_resolve name requirement missed error
      obtain ⟨last, later, hl, final⟩ := ih simple room (source ▸ hm)
        (looked.trans (added.trans (congrArg (· ++ [.scalar name]) started)))
      exact ⟨last, by simp only [eachBranch, acts, leaf, later], hl, final⟩
  | @enter path name requirement rest looked mid looked' package version children trees hs _ _ ihBelow ihRest =>
      obtain ⟨depth, rfl⟩ := few.exists_depth simple room
      have acts := hc.grow_succ depth path name requirement
      rw [hs] at acts
      obtain ⟨entered, acts, he, added⟩ := acts
      obtain ⟨fresh, _, found, _⟩ := Lookup.step_eq_enter hs
      have longer : bound < (path ++ [name]).length + depth := by
        rw [List.length_append, List.length_singleton]
        omega
      obtain ⟨inner, below, hb, looked⟩ := ihBelow
        (simple.snoc (Option.isSome_of_eq_some found) fresh) longer he
        (added.trans (congrArg (· ++ [.scalar name]) started))
      obtain ⟨last, later, hl, final⟩ := ihRest simple room hb looked
      exact ⟨last, by simp only [eachBranch, acts, Grown.node, below, later], hl, final⟩

variable {state : σ} {root : Scalar}

theorem Source.Constant.dependencyTree_found (hc : src.Constant state lookup) {package : Package}
    (found : lookup root = some package) :
    ∃ name, package.name = .scalar name ∧ (name == root) = true ∧
      ∃ run : Run σ, src.Constant run.source lookup ∧ run.lookups = [.scalar root] ∧
        dependencyTree src (.scalar root) state =
          Grown.node package (Version.latestText package.versions) .null
            (eachBranch (grow src (src.depthBound state) ([name].map .scalar)) package.dependencies run) := by
  obtain ⟨name, named, same⟩ := hc.name_eq found
  have started : src.Constant (Run.start state).source lookup := hc
  obtain ⟨run', fetched, hc', looked⟩ := started.fetch root
  refine ⟨name, named, same, run'.note (Version.skippedTexts package.versionTexts), hc',
    congrArg Progress.looked looked, ?_⟩
  rw [List.map_singleton, ← named]
  simp only [dependencyTree, fetched, found]
  rfl

theorem Source.Constant.grows_of_dependencyTree (hc : src.Constant state lookup) {t : Tree}
    (h : (dependencyTree src (.scalar root) state).2 = .ok t) :
    ∃ package name children, lookup root = some package ∧ package.name = .scalar name ∧
      (name == root) = true ∧
      t = .node (.scalar name) (Version.latestText package.versions) .null children ∧
      lookup.Grows [name] package.dependencies [.scalar root]
        (dependencyTree src (.scalar root) state).1.lookups children := by
  cases found : lookup root with
  | none =>
      have started : src.Constant (Run.start state).source lookup := hc
      obtain ⟨run', fetched, _, _⟩ := started.fetch root
      simp only [dependencyTree, fetched, found] at h
      cases h
  | some package =>
      obtain ⟨name, named, same, run, hr, looked, grown⟩ := hc.dependencyTree_found found
      rw [grown] at h ⊢
      cases hb : eachBranch (grow src (src.depthBound state) ([name].map .scalar))
          package.dependencies run with
      | mk last out =>
          rw [hb] at h
          cases out with
          | error failure => cases h
          | ok children =>
              cases h
              exact ⟨package, name, children, rfl, named, same, by rw [named],
                looked ▸ (hr.grows hb).2⟩

theorem Source.Constant.dependencyTree_of_grows (hc : src.Constant state lookup)
    (finite : src.Finite state lookup) {package : Package} {name : Scalar} {looked : List Json}
    {children : List Tree} (found : lookup root = some package) (named : package.name = .scalar name)
    (g : lookup.Grows [name] package.dependencies [.scalar root] looked children) :
    (dependencyTree src (.scalar root) state).2 =
        .ok (.node (.scalar name) (Version.latestText package.versions) .null children) ∧
      (dependencyTree src (.scalar root) state).1.lookups = looked := by
  obtain ⟨name', named', same, run, hr, started, grown⟩ := hc.dependencyTree_found found
  cases named.symm.trans named'
  have simple := Lookup.simple_singleton ((hc.same same).trans found)
  have room : src.bound state < [name].length + src.depthBound state := by
    rw [depthBound, List.length_singleton]
    omega
  obtain ⟨last, branches, _, final⟩ := hr.grow_of_grows finite g simple room started
  rw [grown, branches, ← named]
  exact ⟨rfl, final⟩

end ExprRegistry
