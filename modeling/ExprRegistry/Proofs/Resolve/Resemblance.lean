import ExprRegistry.Proofs.Resolve.Constant
import ExprRegistry.Resolve.Tree

/-!
What a resolution sees of packages: their names, dependencies and versions. Two sources that give resembling
answers to the names they are asked for, and go on to do so whatever was looked up, cannot be told apart by
resolving. Main statements: `resolve_ends`, `resolveRequirements_ends` and `dependencyTree_ends`, for the results
and for the states the sources are left in.
-/

namespace ExprRegistry

/-- Two packages that are the same but for captions and what releases hold beside their versions. -/
structure Package.Resembles (p q : Package) : Prop where
  name : p.name = q.name
  dependencies : p.dependencies = q.dependencies
  versions : p.versions = q.versions

abbrev Lookup.Result := Except LookupError (Option Package)

/-- Two answers to a look-up: the same failure, no package in both, or packages that resemble each other. -/
inductive Lookup.Resembling : Result → Result → Prop
  | error (e : LookupError) : Resembling (.error e) (.error e)
  | missing : Resembling (.ok none) (.ok none)
  | found {p q : Package} (same : p.Resembles q) : Resembling (.ok (some p)) (.ok (some q))

theorem Lookup.Resembling.refl (answer : Result) : Resembling answer answer := by
  rcases answer with e | _ | p
  · exact .error e
  · exact .missing
  · exact .found ⟨rfl, rfl, rfl⟩

variable {σ τ α : Type}

/-- Under a relation between their states two sources give resembling answers and stay related. -/
structure Source.Simulates (src : Source σ) (other : Source τ) (R : σ → τ → Prop) : Prop where
  answer : ∀ {s t}, R s t → ∀ name, Lookup.Resembling (src.find name s).answer (other.find name t).answer
  state : ∀ {s t}, R s t → ∀ name, R (src.find name s).state (other.find name t).state

/-- The same for some of the names only, where the packages that are found under them depend on such names
again. -/
structure Source.SimulatesOn (src : Source σ) (other : Source τ) (Asked : Json → Prop)
    (R : σ → τ → Prop) : Prop where
  answer : ∀ {s t}, R s t → ∀ name, Asked name →
    Lookup.Resembling (src.find name s).answer (other.find name t).answer
  state : ∀ {s t}, R s t → ∀ name, Asked name → R (src.find name s).state (other.find name t).state
  closed : ∀ {s t}, R s t → ∀ name, Asked name → ∀ q, (other.find name t).answer = .ok (some q) →
    ∀ e ∈ q.dependencies, Asked (.scalar e.1)

theorem Source.Simulates.on {src : Source σ} {other : Source τ} {R : σ → τ → Prop}
    (sim : src.Simulates other R) : src.SimulatesOn other (fun _ => True) R :=
  ⟨fun related name _ => sim.answer related name, fun related name _ => sim.state related name,
    fun _ _ _ _ _ _ _ => trivial⟩

/-- Two runs with related sources that have looked up the same names and pinned the same versions. -/
structure Run.Twins (R : σ → τ → Prop) (run : Run σ) (twin : Run τ) : Prop where
  source : R run.source twin.source
  progress : run.progress = twin.progress

/-- Two ends of runs with the same outcome. -/
structure Run.Ends (R : σ → τ → Prop) (x : Run σ × α) (y : Run τ × α) : Prop where
  runs : Twins R x.1 y.1
  outcome : x.2 = y.2

/-- Two ways to deal with a dependency that take such runs to ends with the same outcome. -/
def Run.Steps (Asked : Json → Prop) (R : σ → τ → Prop) (step : Scalar → Json → Run σ → Run σ × α)
    (step' : Scalar → Json → Run τ → Run τ × α) : Prop :=
  ∀ name, Asked (.scalar name) → ∀ requirement run twin, Twins R run twin →
    Ends R (step name requirement run) (step' name requirement twin)

theorem Run.Ends.exists {R : σ → τ → Prop} {x : Run σ × α} {y : Run τ × α} (h : Ends R x y) :
    ∃ run twin outcome, Twins R run twin ∧ x = (run, outcome) ∧ y = (twin, outcome) :=
  ⟨x.1, y.1, x.2, h.runs, rfl, Prod.ext rfl h.outcome.symm⟩

namespace Run.Twins

variable {R : σ → τ → Prop} {Asked : Json → Prop} {src : Source σ} {other : Source τ} {run : Run σ}
  {twin : Run τ}

theorem pins (h : Twins R run twin) : run.pins = twin.pins := congrArg Progress.pins h.progress

theorem lookups (h : Twins R run twin) : run.lookups = twin.lookups := congrArg Progress.looked h.progress

theorem note (h : Twins R run twin) (records others : List Record) :
    Twins R (run.note records) (twin.note others) := ⟨h.source, h.progress⟩

theorem pin (h : Twins R run twin) (name : Scalar) (version : String) :
    Twins R (run.pin name version) (twin.pin name version) :=
  ⟨h.source, congrArg (fun s : Progress => s.pin name version) h.progress⟩

theorem start {s : σ} {t : τ} (related : R s t) : Twins R (Run.start s) (Run.start t) := ⟨related, rfl⟩

/-- A look-up ends in related runs, with answers that resemble each other. -/
theorem fetch (sim : src.SimulatesOn other Asked R) (h : Twins R run twin) {name : Json} (asked : Asked name) :
    ∃ next next' answer answer', Twins R next next' ∧ Lookup.Resembling answer answer' ∧
      (∀ q, answer' = .ok (some q) → ∀ e ∈ q.dependencies, Asked (.scalar e.1)) ∧
      run.fetch src name = (next, answer) ∧ twin.fetch other name = (next', answer') := by
  refine ⟨_, _, _, _, ⟨sim.state h.source name asked, ?_⟩, sim.answer h.source name asked,
    sim.closed h.source name asked, rfl, rfl⟩
  change Progress.mk (run.lookups ++ [name]) run.pins = Progress.mk (twin.lookups ++ [name]) twin.pins
  rw [h.lookups, h.pins]

/-! ### Flat resolution -/

theorem eachDependency {step : Scalar → Json → Run σ → Walked σ} {step' : Scalar → Json → Run τ → Walked τ}
    (each : Steps Asked R step step') (dependencies : Fields) (asked : ∀ e ∈ dependencies, Asked (.scalar e.1))
    (h : Twins R run twin) :
    Ends R (ExprRegistry.eachDependency step dependencies run)
      (ExprRegistry.eachDependency step' dependencies twin) := by
  induction dependencies generalizing run twin with
  | nil => exact ⟨h, rfl⟩
  | cons e dependencies ih =>
      obtain ⟨here, later⟩ := List.forall_mem_cons.mp asked
      obtain ⟨next, next', failure?, runs, first, first'⟩ := (each e.1 here e.2 run twin h).exists
      rw [ExprRegistry.eachDependency, ExprRegistry.eachDependency, first, first']
      cases failure? with
      | none => exact ih later runs
      | some failure => exact ⟨runs, rfl⟩

theorem settle (sim : src.SimulatesOn other Asked R) (depth : Nat) (path : List Json) :
    Steps Asked R (ExprRegistry.settle src depth path) (ExprRegistry.settle other depth path) := by
  induction depth generalizing path with
  | zero => exact fun name asked requirement run twin h => ⟨h, rfl⟩
  | succ depth ih =>
      intro name asked requirement run twin h
      rw [ExprRegistry.settle, ExprRegistry.settle, ← h.pins]
      split
      case isTrue => exact ⟨h, rfl⟩
      case isFalse =>
        split
        case h_1 => exact ⟨h, rfl⟩
        case h_2 req _ =>
          split
          case h_1 version _ => split <;> exact ⟨h, rfl⟩
          case h_2 =>
            obtain ⟨next, next', _, _, runs, answers, closed, looked, looked'⟩ := h.fetch sim asked
            rw [looked, looked']
            cases answers with
            | error e => exact ⟨runs, rfl⟩
            | missing => exact ⟨runs, rfl⟩
            | @found p q same =>
                simp only [same.versions, same.dependencies]
                have noted := runs.note (Version.skippedTexts p.versionTexts) (Version.skippedTexts q.versionTexts)
                split
                case h_1 => exact ⟨noted, rfl⟩
                case h_2 version _ =>
                  exact eachDependency (ih _) q.dependencies (closed q rfl) ((noted.note _ _).pin name version)

/-! ### Trees -/

theorem eachBranch {step : Scalar → Json → Run σ → Grown σ Tree} {step' : Scalar → Json → Run τ → Grown τ Tree}
    (each : Steps Asked R step step') (dependencies : Fields) (asked : ∀ e ∈ dependencies, Asked (.scalar e.1))
    (h : Twins R run twin) :
    Ends R (ExprRegistry.eachBranch step dependencies run)
      (ExprRegistry.eachBranch step' dependencies twin) := by
  induction dependencies generalizing run twin with
  | nil => exact ⟨h, rfl⟩
  | cons e dependencies ih =>
      obtain ⟨here, later⟩ := List.forall_mem_cons.mp asked
      obtain ⟨next, next', result, runs, first, first'⟩ := (each e.1 here e.2 run twin h).exists
      rw [ExprRegistry.eachBranch, ExprRegistry.eachBranch, first, first']
      cases result with
      | error failure => exact ⟨runs, rfl⟩
      | ok tree =>
          obtain ⟨last, last', trees, runs, rest, rest'⟩ := (ih later runs).exists
          simp only [rest, rest']
          cases trees with
          | error failure => exact ⟨runs, rfl⟩
          | ok trees => exact ⟨runs, rfl⟩

theorem endBranch (h : Twins R run twin) (name : Scalar) (requirement : Json) (failure : Failure) :
    Ends R (ExprRegistry.endBranch name requirement run failure)
      (ExprRegistry.endBranch name requirement twin failure) := by
  cases failure with
  | resolve error => exact ⟨h.note _ _, rfl⟩
  | lookup e => exact ⟨h, rfl⟩
  | unfit how => exact ⟨h, rfl⟩
  | tooDeep => exact ⟨h, rfl⟩

theorem grow (sim : src.SimulatesOn other Asked R) (depth : Nat) (path : List Json) :
    Steps Asked R (ExprRegistry.grow src depth path) (ExprRegistry.grow other depth path) := by
  induction depth generalizing path with
  | zero => exact fun name asked requirement run twin h => ⟨h, rfl⟩
  | succ depth ih =>
      intro name asked requirement run twin h
      rw [ExprRegistry.grow, ExprRegistry.grow]
      split
      case isTrue => exact h.endBranch name requirement _
      case isFalse =>
        split
        case h_1 => exact h.endBranch name requirement _
        case h_2 req _ =>
          obtain ⟨next, next', _, _, runs, answers, closed, looked, looked'⟩ := h.fetch sim asked
          rw [looked, looked']
          cases answers with
          | error e => exact ⟨runs, rfl⟩
          | missing => exact runs.endBranch name requirement _
          | @found p q same =>
              simp only [same.versions, same.dependencies, same.name]
              have noted := runs.note (Version.skippedTexts p.versionTexts) (Version.skippedTexts q.versionTexts)
              split
              case h_1 => exact noted.endBranch name requirement _
              case h_2 version _ =>
                obtain ⟨last, last', trees, runs, grown, grown'⟩ :=
                  (eachBranch (ih _) q.dependencies (closed q rfl) noted).exists
                rw [grown, grown']
                cases trees with
                | error failure => exact ⟨runs, rfl⟩
                | ok trees => exact ⟨runs, rfl⟩

end Run.Twins

/-! ### Results and look-ups -/

/-- Two resolutions with the same result that have looked up the same names. -/
def SameResolution (x : Run σ × α) (y : Run τ × α) : Prop :=
  x.2 = y.2 ∧ x.1.lookups = y.1.lookups

theorem SameResolution.trans {ρ : Type} {x : Run σ × α} {y : Run τ × α} {z : Run ρ × α}
    (h : SameResolution x y) (k : SameResolution y z) : SameResolution x z :=
  ⟨h.1.trans k.1, h.2.trans k.2⟩

theorem Run.Ends.same {R : σ → τ → Prop} {x : Run σ × α} {y : Run τ × α} (h : Ends R x y) :
    SameResolution x y := ⟨h.outcome, h.runs.lookups⟩

namespace Source.SimulatesOn

variable {R : σ → τ → Prop} {Asked : Json → Prop} {src : Source σ} {other : Source τ} {s : σ}
  {t : τ}

theorem resolve_ends (sim : src.SimulatesOn other Asked R) (related : R s t) (bound : src.bound s = other.bound t)
    {root : Json} (asked : Asked root) : Run.Ends R (resolve src root s) (resolve other root t) := by
  obtain ⟨run, twin, _, _, runs, answers, closed, looked, looked'⟩ := (Run.Twins.start related).fetch sim asked
  rw [resolve, resolve, looked, looked', depthBound, depthBound, bound]
  cases answers with
  | error e => exact ⟨runs, rfl⟩
  | missing => exact ⟨runs, rfl⟩
  | @found p q same =>
      simp only [same.versions, same.dependencies, same.name]
      have noted := runs.note (Version.skippedTexts p.versionTexts) (Version.skippedTexts q.versionTexts)
      split
      case h_1 => exact ⟨noted, rfl⟩
      case h_2 name _ =>
        have pinned := noted.pin name (Version.latestText q.versions)
        obtain ⟨last, last', failure?, ended, walked, walked'⟩ :=
          (Run.Twins.eachDependency (Run.Twins.settle sim _ _) q.dependencies (closed q rfl) pinned).exists
        rw [walked, walked']
        cases failure? with
        | some failure => exact ⟨ended, rfl⟩
        | none => exact ⟨ended.note _ _, congrArg Except.ok ended.pins⟩

theorem resolveRequirements_ends (sim : src.SimulatesOn other Asked R) (related : R s t)
    (bound : src.bound s = other.bound t) {requirements : Fields}
    (asked : ∀ e ∈ requirements, Asked (.scalar e.1)) :
    Run.Ends R (resolveRequirements src requirements s) (resolveRequirements other requirements t) := by
  obtain ⟨last, last', failure?, ended, walked, walked'⟩ := (Run.Twins.eachDependency
    (Run.Twins.settle sim _ []) requirements asked (Run.Twins.start related)).exists
  rw [resolveRequirements, resolveRequirements, depthBound, depthBound, bound, walked, walked']
  cases failure? with
  | some failure => exact ⟨ended, rfl⟩
  | none => exact ⟨ended, congrArg Except.ok ended.pins⟩

theorem dependencyTree_ends (sim : src.SimulatesOn other Asked R) (related : R s t)
    (bound : src.bound s = other.bound t) {root : Json} (asked : Asked root) :
    Run.Ends R (dependencyTree src root s) (dependencyTree other root t) := by
  obtain ⟨run, twin, _, _, runs, answers, closed, looked, looked'⟩ := (Run.Twins.start related).fetch sim asked
  rw [dependencyTree, dependencyTree, looked, looked', depthBound, depthBound, bound]
  cases answers with
  | error e => exact ⟨runs, rfl⟩
  | missing => exact ⟨runs, rfl⟩
  | @found p q same =>
      simp only [same.versions, same.dependencies, same.name]
      have noted := runs.note (Version.skippedTexts p.versionTexts) (Version.skippedTexts q.versionTexts)
      obtain ⟨last, last', trees, ended, grown, grown'⟩ :=
        (Run.Twins.eachBranch (Run.Twins.grow sim _ _) q.dependencies (closed q rfl) noted).exists
      rw [grown, grown']
      cases trees with
      | error failure => exact ⟨ended, rfl⟩
      | ok trees => exact ⟨ended, rfl⟩

end Source.SimulatesOn

namespace Source.Simulates

variable {R : σ → τ → Prop} {src : Source σ} {other : Source τ} {s : σ} {t : τ}

theorem resolve_ends (sim : src.Simulates other R) (related : R s t) (bound : src.bound s = other.bound t)
    (root : Json) : Run.Ends R (resolve src root s) (resolve other root t) :=
  sim.on.resolve_ends related bound trivial

theorem resolveRequirements_ends (sim : src.Simulates other R) (related : R s t)
    (bound : src.bound s = other.bound t) (requirements : Fields) :
    Run.Ends R (resolveRequirements src requirements s) (resolveRequirements other requirements t) :=
  sim.on.resolveRequirements_ends related bound fun _ _ => trivial

theorem dependencyTree_ends (sim : src.Simulates other R) (related : R s t)
    (bound : src.bound s = other.bound t) (root : Json) :
    Run.Ends R (dependencyTree src root s) (dependencyTree other root t) :=
  sim.on.dependencyTree_ends related bound trivial

end Source.Simulates

end ExprRegistry
