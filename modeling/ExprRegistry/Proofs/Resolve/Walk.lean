import ExprRegistry.Proofs.Resolve.Constant

/-!
Flat resolution as a relation. `Lookup.Walk` says what a walk over some dependencies does, without a bound
on the length of paths and without the state of a source. Main statement: `Source.Constant.walks`, that the
walk of the program is such a walk unless its bound is exhausted, for which more packages must be there than
the bound allows.
-/

namespace ExprRegistry

variable {σ : Type}

namespace Lookup

/-- A walk over dependencies from one progress to another, and the failure in which it ends. The first
argument is the path: the packages that are being resolved, each declared by the one before. -/
inductive Walk (lookup : Lookup) :
    List Scalar → Fields → Progress → Progress → Option Failure → Prop
  | done {path s} : Walk lookup path [] s s none
  | keep {path name requirement rest s s' out} :
      lookup.step path s.pins name requirement = .keep →
      Walk lookup path rest s s' out → Walk lookup path ((name, requirement) :: rest) s s' out
  | refuse {path name requirement rest s failure} :
      lookup.step path s.pins name requirement = .refuse failure →
      Walk lookup path ((name, requirement) :: rest) s s (some failure)
  | miss {path name requirement rest s failure} :
      lookup.step path s.pins name requirement = .miss failure →
      Walk lookup path ((name, requirement) :: rest) s (s.look name) (some failure)
  | sink {path name requirement rest s s' package version failure} :
      lookup.step path s.pins name requirement = .enter package version →
      Walk lookup (path ++ [name]) package.dependencies ((s.look name).pin name version) s'
        (some failure) →
      Walk lookup path ((name, requirement) :: rest) s s' (some failure)
  | enter {path name requirement rest s mid s' package version out} :
      lookup.step path s.pins name requirement = .enter package version →
      Walk lookup (path ++ [name]) package.dependencies ((s.look name).pin name version) mid none →
      Walk lookup path rest mid s' out →
      Walk lookup path ((name, requirement) :: rest) s s' out

end Lookup

variable {src : Source σ} {lookup : Lookup}

theorem any_names (path : List Scalar) (name : Scalar) :
    (path.map Json.scalar).any (·.names name) = path.any (· == name) := by
  rw [List.any_map]
  rfl

/-- The program acts as the step says: it keeps, refuses, misses or enters. -/
theorem Source.Constant.settle_succ {run : Run σ} (hc : src.Constant run.source lookup) (depth : Nat)
    (path : List Scalar) (name : Scalar) (requirement : Json) :
    match lookup.step path run.progress.pins name requirement with
    | .keep => settle src (depth + 1) (path.map .scalar) name requirement run = (run, none)
    | .refuse failure =>
      settle src (depth + 1) (path.map .scalar) name requirement run = (run, some failure)
    | .miss failure => ∃ run' : Run σ,
      settle src (depth + 1) (path.map .scalar) name requirement run = (run', some failure) ∧
        src.Constant run'.source lookup ∧ run'.progress = run.progress.look name
    | .enter package version => ∃ run' : Run σ,
      settle src (depth + 1) (path.map .scalar) name requirement run =
          eachDependency (settle src depth ((path ++ [name]).map .scalar)) package.dependencies run' ∧
        src.Constant run'.source lookup ∧
        run'.progress = (run.progress.look name).pin name version := by
  obtain ⟨run', fetched, hc', looked⟩ := hc.fetch name
  simp only [settle, Lookup.step, any_names, List.map_append, List.map_cons, List.map_nil, fetched]
  by_cases met : path.any (· == name) = true
  · simp only [met, if_true]
  simp only [met, Bool.false_eq_true, if_false]
  cases Requirement.ofJson requirement with
  | error m => rfl
  | ok req =>
      cases hp : run.progress.pins.get? name with
      | some version =>
          have hp' : run.pins.get? name = some version := hp
          by_cases admitted : req.admitsJson (.str version) = true
          · simp only [hp', admitted, if_true]
          · simp only [hp', admitted, Bool.false_eq_true, if_false]
      | none =>
          have hp' : run.pins.get? name = none := hp
          simp only [hp']
          cases lookup name with
          | none => exact ⟨run', rfl, hc', looked⟩
          | some package =>
              cases hv : Version.latestMeeting? Version.ofText? req package.versions with
              | none => simp only [hv]; exact ⟨_, rfl, hc', looked⟩
              | some version =>
                  simp only [hv]
                  exact ⟨_, rfl, hc', congrArg (·.pin name version) looked⟩

/-- There are as many different packages as a path and a bound on its growth add up to, if the path
itself does not repeat any. -/
def Lookup.Reaches (lookup : Lookup) (path : List Scalar) (depth : Nat) : Prop :=
  lookup.Simple path → ∃ names, lookup.Simple names ∧ names.length = path.length + depth

theorem Lookup.Reaches.of_enter {path : List Scalar} {pins : Table Scalar String} {name : Scalar}
    {requirement : Json} {package : Package} {version : String} {depth : Nat}
    (hs : lookup.step path pins name requirement = .enter package version)
    (h : lookup.Reaches (path ++ [name]) depth) : lookup.Reaches path (depth + 1) := by
  intro simple
  obtain ⟨fresh, _, found, _⟩ := step_eq_enter hs
  obtain ⟨names, different, length⟩ := h (simple.snoc (Option.isSome_of_eq_some found) fresh)
  refine ⟨names, different, ?_⟩
  rw [length, List.length_append, List.length_singleton]
  omega

theorem Lookup.Reaches.not_finite {state : σ} {path : List Scalar} {depth : Nat}
    (h : lookup.Reaches path depth) (simple : lookup.Simple path)
    (long : src.bound state < path.length + depth) : ¬ src.Finite state lookup := by
  intro finite
  obtain ⟨names, different, length⟩ := h simple
  have bounded := finite names different
  omega

/-- A walk of the program is a walk of the relation, or it exhausts its bound. -/
theorem Source.Constant.walks {depth : Nat} {path : List Scalar} {deps : Fields} {run run' : Run σ}
    {out : Option Failure} (hc : src.Constant run.source lookup)
    (h : eachDependency (settle src depth (path.map .scalar)) deps run = (run', out)) :
    (out = some .tooDeep ∧ lookup.Reaches path depth) ∨
      (src.Constant run'.source lookup ∧ lookup.Walk path deps run.progress run'.progress out) := by
  -- an entered package lengthens the path and uses up the bound; its siblings share both
  induction depth generalizing path deps run run' out with
  | zero =>
      cases deps with
      | nil => cases h; exact .inr ⟨hc, .done⟩
      | cons dependency rest =>
          cases h
          exact .inl ⟨rfl, fun simple => ⟨path, simple, rfl⟩⟩
  | succ depth ihDepth =>
      induction deps generalizing run with
      | nil => cases h; exact .inr ⟨hc, .done⟩
      | cons dependency rest ih =>
          obtain ⟨name, requirement⟩ := dependency
          have acts := hc.settle_succ depth path name requirement
          rw [eachDependency] at h
          cases hs : lookup.step path run.progress.pins name requirement with
          | keep =>
              rw [hs] at acts
              simp only [acts] at h
              exact (ih hc h).imp_right fun later => ⟨later.1, .keep hs later.2⟩
          | refuse failure =>
              rw [hs] at acts
              simp only [acts] at h
              cases h
              exact .inr ⟨hc, .refuse hs⟩
          | miss failure =>
              rw [hs] at acts
              obtain ⟨missed, acts, hc', progress⟩ := acts
              simp only [acts] at h
              cases h
              exact .inr ⟨hc', progress ▸ .miss hs⟩
          | enter package version =>
              rw [hs] at acts
              obtain ⟨entered, acts, hc', progress⟩ := acts
              simp only [acts] at h
              cases hi : eachDependency (settle src depth ((path ++ [name]).map .scalar))
                  package.dependencies entered with
              | mk mid inner =>
                  simp only [hi] at h
                  rcases ihDepth hc' hi with ⟨rfl, reaches⟩ | ⟨hm, below⟩
                  · cases h
                    exact .inl ⟨rfl, reaches.of_enter hs⟩
                  rw [progress] at below
                  cases inner with
                  | some failure => cases h; exact .inr ⟨hm, .sink hs below⟩
                  | none =>
                      exact (ih hm h).imp_right fun later => ⟨later.1, .enter hs below later.2⟩

def Progress.answer (s : Progress) : Option Failure → Except Failure (Table Scalar String)
  | none => .ok s.pins
  | some failure => .error failure

variable {state : σ}

/-- The progress in which the walk from a root begins. -/
def Progress.ofRoot (root name : Scalar) (package : Package) : Progress :=
  ⟨[.scalar root], [(name, Version.latestText package.versions)]⟩

theorem Progress.has_ofRoot (root name : Scalar) (package : Package) (n : Scalar) :
    (Progress.ofRoot root name package).pins.has n = (name == n) := Table.has_singleton n name _

theorem Source.Constant.resolve_missing (hc : src.Constant state lookup) {root : Scalar}
    (missing : lookup root = none) :
    (resolve src (.scalar root) state).2 = .error (.resolve (.rootNotFound (.scalar root))) := by
  have started : src.Constant (Run.start state).source lookup := hc
  obtain ⟨run', fetched, _, _⟩ := started.fetch root
  simp only [resolve, fetched, missing]

theorem Source.Constant.resolve_found (hc : src.Constant state lookup) {root : Scalar}
    {package : Package} (found : lookup root = some package) :
    ∃ name, package.name = .scalar name ∧ (name == root) = true ∧
      (((resolve src (.scalar root) state).2 = .error .tooDeep ∧ ¬ src.Finite state lookup) ∨
        ∃ s out, lookup.Walk [name] package.dependencies (.ofRoot root name package) s out ∧
          (resolve src (.scalar root) state).2 = s.answer out ∧
          (resolve src (.scalar root) state).1.lookups = s.looked) := by
  obtain ⟨name, named, same⟩ := hc.name_eq found
  refine ⟨name, named, same, ?_⟩
  have started : src.Constant (Run.start state).source lookup := hc
  obtain ⟨run', fetched, hc', looked⟩ := started.fetch root
  let first := (run'.note (Version.skippedTexts package.versionTexts)).pin name
    (Version.latestText package.versions)
  have ready : src.Constant first.source lookup := hc'
  have pinned : first.progress = .ofRoot root name package :=
    congrArg (·.pin name (Version.latestText package.versions)) looked
  simp only [resolve, fetched, found, named, Json.scalar?]
  cases hw : eachDependency (settle src (src.depthBound state) ([name].map .scalar))
      package.dependencies first with
  | mk last out =>
      have hw' : eachDependency (settle src (src.depthBound state) [.scalar name])
        package.dependencies first = (last, out) := hw
      simp only [first] at hw'
      simp only [hw']
      rcases ready.walks hw with ⟨rfl, reaches⟩ | ⟨_, walk⟩
      · have simple := Lookup.simple_singleton ((hc.same same).trans found)
        exact .inl ⟨rfl, reaches.not_finite simple (by simp only [depthBound, List.length_singleton]; omega)⟩
      · rw [pinned] at walk
        refine .inr ⟨last.progress, out, walk, ?_⟩
        cases out <;> exact ⟨rfl, rfl⟩

theorem Source.Constant.resolveRequirements_walks (hc : src.Constant state lookup) (requirements : Fields) :
    ((resolveRequirements src requirements state).2 = .error .tooDeep ∧ ¬ src.Finite state lookup) ∨
      ∃ s out, lookup.Walk [] requirements ⟨[], []⟩ s out ∧
        (resolveRequirements src requirements state).2 = s.answer out ∧
        (resolveRequirements src requirements state).1.lookups = s.looked := by
  simp only [resolveRequirements]
  have started : src.Constant (Run.start state).source lookup := hc
  cases hw : eachDependency (settle src (src.depthBound state) ([].map .scalar)) requirements
      (Run.start state) with
  | mk last out =>
      have hw' : eachDependency (settle src (src.depthBound state) []) requirements (Run.start state) =
        (last, out) := hw
      simp only [hw']
      rcases started.walks hw with ⟨rfl, reaches⟩ | ⟨_, walk⟩
      · have simple : lookup.Simple [] := ⟨List.Pairwise.nil, fun n member => by cases member⟩
        exact .inl ⟨rfl, reaches.not_finite simple (by simp only [depthBound, List.length_nil]; omega)⟩
      · refine .inr ⟨last.progress, out, walk, ?_⟩
        cases out <;> exact ⟨rfl, rfl⟩

end ExprRegistry
