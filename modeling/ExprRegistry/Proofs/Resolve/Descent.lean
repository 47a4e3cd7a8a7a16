import ExprRegistry.Proofs.Resolve.Growth

/-!
How far a recursion through dependencies descends. What it does about a dependency is decided before anything is handed
down: `Opening` is that decision, and the flat walk and the tree are descents with openings of their own. A path grows
only by a package that is not on it, and a bound is exhausted only by a path that is as long as the bound allows. Main
statements: `Opening.Guarded.visits`, `Opening.Guarded.exists_end`, `settle_eq_descend` and `grow_eq_descend`.
-/

namespace ExprRegistry

variable {σ α : Type}

/-! ### Descents -/

/-- What is decided about a dependency before its package hands anything down: it is at its end, or a package is
entered, with what is made of the ends of its dependencies. -/
abbrev Opening (σ α : Type) :=
  List Json → Scalar → Json → Run σ → Grown σ α ⊕ (Package × (List α → α) × Run σ)

def Grown.map {β : Type} (f : α → β) (g : Grown σ α) : Grown σ β := (g.1, g.2.map f)

def eachDescent (step : Scalar → Json → Run σ → Grown σ α) : Fields → Run σ → Grown σ (List α)
  | [], run => (run, .ok [])
  | (name, requirement) :: rest, run =>
    match step name requirement run with
    | (run, .error failure) => (run, .error failure)
    | (run, .ok a) => Grown.map (a :: ·) (eachDescent step rest run)

/-- Goes through a dependency as an opening decides. The first argument bounds the length of the path. -/
def descend (opening : Opening σ α) : Nat → List Json → Scalar → Json → Run σ → Grown σ α
  | 0, _, _, _, run => (run, .error .tooDeep)
  | depth + 1, path, name, requirement, run =>
    match opening path name requirement run with
    | .inl ended => ended
    | .inr (package, close, entered) =>
      Grown.map close (eachDescent (descend opening depth (path ++ [.scalar name])) package.dependencies entered)

/-- The paths that are handed down while some dependencies are gone through below a path. -/
inductive Opening.Hands (opening : Opening σ α) : Nat → List Json → Fields → Run σ → List Json → Prop
  | here {depth path deps run} : Hands opening depth path deps run path
  | inside {depth path name requirement rest run package close entered handed} :
      opening path name requirement run = .inr (package, close, entered) →
      Hands opening depth (path ++ [.scalar name]) package.dependencies entered handed →
      Hands opening (depth + 1) path ((name, requirement) :: rest) run handed
  | later {depth path name requirement rest run after a handed} :
      descend opening depth path name requirement run = (after, .ok a) →
      Hands opening depth path rest after handed →
      Hands opening depth path ((name, requirement) :: rest) run handed

/-- What an opening may decide: it is at an end that no bound has brought about, or it enters a package that is found
under a name which is not on the path. The source stays constant. -/
inductive Opening.Guards (src : Source σ) (lookup : Lookup) (path : List Scalar) (name : Scalar) :
    Grown σ α ⊕ (Package × (List α → α) × Run σ) → Prop
  | ends {last result} : result ≠ .error .tooDeep → src.Constant last.source lookup →
      Guards src lookup path name (.inl (last, result))
  | enters {package close entered} : path.any (· == name) = false → lookup name = some package →
      src.Constant entered.source lookup → Guards src lookup path name (.inr (package, close, entered))

def Opening.Guarded (opening : Opening σ α) (src : Source σ) (lookup : Lookup) : Prop :=
  ∀ (path : List Scalar) (name : Scalar) (requirement : Json) (run : Run σ), src.Constant run.source lookup →
    Guards src lookup path name (opening (path.map .scalar) name requirement run)

/-- The same source with another bound. -/
def Source.within (src : Source σ) (bound : σ → Nat) : Source σ := { src with bound := bound }

/-- Packages that are all different, so no more than there are. -/
def Lookup.Visits (lookup : Lookup) (handed : List Json) : Prop :=
  ∃ names, handed = names.map .scalar ∧ lookup.Simple names ∧ ∀ count, lookup.AtMost count → names.length ≤ count

variable {opening : Opening σ α} {src : Source σ} {state : σ} {lookup : Lookup} {depth more : Nat}
  {path handed : List Json} {names : List Scalar} {deps : Fields} {name : Scalar} {requirement : Json}
  {run last : Run σ}

theorem Lookup.Simple.visits (simple : lookup.Simple names) : lookup.Visits (names.map .scalar) :=
  ⟨names, rfl, simple, fun _ few => few names simple⟩

theorem Lookup.Visits.short {count : Nat} (h : lookup.Visits handed) (few : lookup.AtMost count) :
    handed.length ≤ count := by
  obtain ⟨names, rfl, _, short⟩ := h
  rw [List.length_map]
  exact short count few

theorem Grown.map_eq_error_iff {β : Type} {f : α → β} {g : Grown σ α} {failure : Failure} :
    g.map f = (last, .error failure) ↔ g = (last, .error failure) := by
  obtain ⟨run, result⟩ := g
  cases result <;> simp [Grown.map, Except.map]

/-- A failure comes from the first dependency, or from those after it. -/
theorem eachDescent_cons_eq_error_iff {step : Scalar → Json → Run σ → Grown σ α} {failure : Failure} :
    eachDescent step ((name, requirement) :: deps) run = (last, .error failure) ↔
      step name requirement run = (last, .error failure) ∨
        ∃ after a, step name requirement run = (after, .ok a) ∧
          eachDescent step deps after = (last, .error failure) := by
  rw [eachDescent]
  obtain ⟨after, first⟩ := step name requirement run
  cases first with
  | error other => simp
  | ok a => simp [Grown.map_eq_error_iff]

/-- What each step keeps is kept. -/
theorem eachDescent_keeps {P : Run σ → Prop} {step : Scalar → Json → Run σ → Grown σ α}
    (kept : ∀ name requirement run, P run → P (step name requirement run).1) (h : P run) :
    P (eachDescent step deps run).1 := by
  induction deps generalizing run with
  | nil => exact h
  | cons dependency rest ih =>
      obtain ⟨name, requirement⟩ := dependency
      have first := kept name requirement run h
      rw [eachDescent]
      cases here : step name requirement run with
      | mk after result =>
          rw [here] at first
          cases result with
          | error failure => exact first
          | ok a => exact ih first

/-- A dependency ends as with the smaller bound, if those below it do. -/
theorem descend_of_below
    (below : ∀ path deps run, (eachDescent (descend opening depth path) deps run).2 ≠ .error .tooDeep →
      eachDescent (descend opening more path) deps run = eachDescent (descend opening depth path) deps run)
    (ends : (descend opening (depth + 1) path name requirement run).2 ≠ .error .tooDeep) :
    descend opening (more + 1) path name requirement run =
      descend opening (depth + 1) path name requirement run := by
  rw [descend] at ends ⊢
  rw [descend]
  cases opened : opening path name requirement run with
  | inl ended => rfl
  | inr entry =>
      obtain ⟨package, close, entered⟩ := entry
      simp only [opened] at ends ⊢
      rw [below]
      intro inside
      rw [Grown.map, inside] at ends
      exact ends rfl

/-- What ends without having exhausted its bound ends in the same way with a larger one. -/
theorem eachDescent_of_le (enough : depth ≤ more)
    (ends : (eachDescent (descend opening depth path) deps run).2 ≠ .error .tooDeep) :
    eachDescent (descend opening more path) deps run = eachDescent (descend opening depth path) deps run := by
  induction depth generalizing path deps run more with
  | zero =>
      cases deps with
      | nil => rfl
      | cons dependency rest => exact absurd rfl ends
  | succ depth ihDepth =>
      obtain ⟨more, rfl⟩ := Nat.exists_eq_add_of_le' (Nat.le_trans (Nat.le_add_left 1 depth) enough)
      have enough : depth ≤ more := Nat.le_of_succ_le_succ enough
      induction deps generalizing run with
      | nil => rfl
      | cons dependency rest ih =>
          obtain ⟨name, requirement⟩ := dependency
          have same (deep : (descend opening (depth + 1) path name requirement run).2 ≠ .error .tooDeep) :=
            descend_of_below (fun _ _ _ => ihDepth enough) deep
          rw [eachDescent] at ends ⊢
          rw [eachDescent]
          cases here : descend opening (depth + 1) path name requirement run with
          | mk after result =>
              rw [here] at ends same
              cases result with
              | error failure =>
                  rw [same]
                  rintro ⟨⟩
                  exact ends rfl
              | ok a =>
                  rw [same nofun]
                  dsimp only
                  rw [ih]
                  intro later
                  dsimp only at ends
                  rw [Grown.map, later] at ends
                  exact ends rfl

namespace Opening.Guarded

theorem constant (guarded : opening.Guarded src lookup) (hc : src.Constant run.source lookup) :
    src.Constant (descend opening depth (names.map .scalar) name requirement run).1.source lookup := by
  induction depth generalizing names name requirement run with
  | zero => exact hc
  | succ depth ih =>
      have decided := guarded names name requirement run hc
      rw [descend]
      cases opened : opening (names.map .scalar) name requirement run with
      | inl ended =>
          rw [opened] at decided
          cases decided with
          | ends _ constant => exact constant
      | inr entry =>
          rw [opened] at decided
          cases decided with
          | enters _ _ constant =>
              dsimp only
              rw [← List.map_singleton, ← List.map_append]
              exact eachDescent_keeps (P := fun run => src.Constant run.source lookup) (fun _ _ _ => ih) constant

theorem constant_of_passed (guarded : opening.Guarded src lookup) {after : Run σ} {result : Except Failure α}
    (hc : src.Constant run.source lookup)
    (passed : descend opening depth (names.map .scalar) name requirement run = (after, result)) :
    src.Constant after.source lookup := by
  have kept : src.Constant (descend opening depth (names.map .scalar) name requirement run).1.source lookup :=
    guarded.constant hc
  rwa [passed] at kept

/-- The path that is handed down grows by packages that are not on it. -/
theorem visits (guarded : opening.Guarded src lookup) (h : opening.Hands depth (names.map .scalar) deps run handed)
    (hc : src.Constant run.source lookup) (simple : lookup.Simple names) : lookup.Visits handed := by
  generalize spelled : names.map Json.scalar = path at h
  induction h generalizing names with
  | here =>
      subst spelled
      exact simple.visits
  | @inside depth path name requirement rest run package close entered handed opened _ ih =>
      subst spelled
      have decided := guarded names name requirement run hc
      rw [opened] at decided
      cases decided with
      | enters fresh found constant =>
          refine ih constant (simple.snoc (Option.isSome_of_eq_some found) fresh) ?_
          rw [List.map_append, List.map_singleton]
  | later passed _ ih =>
      subst spelled
      exact ih (guarded.constant_of_passed hc passed) simple rfl

/-- A bound is exhausted only by a path that is as long as it allows. -/
theorem exists_hands (guarded : opening.Guarded src lookup) (hc : src.Constant run.source lookup)
    (h : eachDescent (descend opening depth (names.map .scalar)) deps run = (last, .error .tooDeep)) :
    ∃ handed, opening.Hands depth (names.map .scalar) deps run handed ∧ handed.length = names.length + depth := by
  induction depth generalizing names deps run last with
  | zero => exact ⟨names.map .scalar, .here, List.length_map _⟩
  | succ depth ihDepth =>
      induction deps generalizing run with
      | nil => cases h
      | cons dependency rest ih =>
          obtain ⟨name, requirement⟩ := dependency
          rcases eachDescent_cons_eq_error_iff.mp h with here | ⟨after, a, passed, later⟩
          · have decided := guarded names name requirement run hc
            rw [descend] at here
            cases opened : opening (names.map .scalar) name requirement run with
            | inl ended =>
                rw [opened] at decided here
                cases decided with
                | ends other _ =>
                    cases here
                    exact absurd rfl other
            | inr entry =>
                rw [opened] at decided here
                cases decided with
                | enters _ _ constant =>
                    have deep := Grown.map_eq_error_iff.mp here
                    rw [← List.map_singleton, ← List.map_append] at deep
                    obtain ⟨handed, inside, long⟩ := ihDepth constant deep
                    rw [List.map_append, List.map_singleton] at inside
                    refine ⟨handed, .inside opened inside, ?_⟩
                    rw [long, List.length_append, List.length_singleton]
                    omega
          · obtain ⟨handed, hands, long⟩ := ih (guarded.constant_of_passed hc passed) later
            exact ⟨handed, .later passed hands, long⟩

/-- A descent has one end within all bounds that leave room for the packages there are. -/
theorem exists_end (guarded : opening.Guarded src lookup) (hc : src.Constant run.source lookup)
    (simple : lookup.Simple names) (finite : src.Finite state lookup) (deps : Fields) :
    ∃ last out, out ≠ .error .tooDeep ∧ ∀ bound : σ → Nat, src.bound state ≤ bound state →
      eachDescent (descend opening ((src.within bound).depthBound state) (names.map .scalar)) deps run =
        (last, out) := by
  have ends : (eachDescent (descend opening (src.depthBound state) (names.map .scalar)) deps run).2 ≠
      .error .tooDeep := by
    intro deep
    obtain ⟨handed, hands, long⟩ := guarded.exists_hands hc (Prod.ext rfl deep)
    have short := (guarded.visits hands hc simple).short finite
    rw [long, Source.depthBound] at short
    omega
  exact ⟨_, _, ends, fun bound larger => eachDescent_of_le (Nat.add_le_add_right larger 2) ends⟩

end Opening.Guarded

/-! ### The flat walk -/

/-- How settling a dependency begins. -/
def flatOpening (src : Source σ) : Opening σ Unit := fun path name requirement run =>
  if path.any (·.names name) then .inl (run, .error (.ofCycle (path ++ [.scalar name])))
  else
    match Requirement.ofJson requirement with
    | .error m => .inl (run, .error (.resolve (.malformed m)))
    | .ok req =>
      match run.pins.get? name with
      | some version =>
        if req.admitsJson (.str version) then .inl (run, .ok ())
        else .inl (run, .error (.resolve (.conflict name version requirement)))
      | none =>
        match run.fetch src name with
        | (run, .error e) => .inl (run, .error (.lookup e))
        | (run, .ok none) => .inl (run, .error (.resolve (.notFound name)))
        | (run, .ok (some package)) =>
          let run := run.note (Version.skippedTexts package.versionTexts)
          match Version.latestMeeting? Version.ofText? req package.versions with
          | none => .inl (run, .error (.resolve (.noMatch name requirement)))
          | some version =>
            .inr (package, fun _ => (), (run.note [pinned name version requirement]).pin name version)

def Grown.walked : Grown σ α → Walked σ
  | (run, .error failure) => (run, some failure)
  | (run, .ok _) => (run, none)

theorem walked_eachDescent {flat : Scalar → Json → Run σ → Walked σ} {step : Scalar → Json → Run σ → Grown σ α}
    (same : ∀ name requirement run, flat name requirement run = (step name requirement run).walked) :
    eachDependency flat deps run = (eachDescent step deps run).walked := by
  induction deps generalizing run with
  | nil => rfl
  | cons dependency rest ih =>
      obtain ⟨name, requirement⟩ := dependency
      rw [eachDependency, eachDescent, same]
      obtain ⟨after, result⟩ := step name requirement run
      cases result with
      | error failure => rfl
      | ok a =>
          simp only [Grown.walked, ih]
          obtain ⟨final, others⟩ := eachDescent step rest after
          cases others <;> rfl

theorem Grown.walked_map {β : Type} (f : α → β) (g : Grown σ α) : (g.map f).walked = g.walked := by
  obtain ⟨run, result⟩ := g
  cases result <;> rfl

/-- Settling a dependency is a descent. -/
theorem settle_eq_descend :
    settle src depth path name requirement run =
      (descend (flatOpening src) depth path name requirement run).walked := by
  induction depth generalizing path name requirement run with
  | zero => rfl
  | succ depth ih =>
      have inside (package : Package) (entered : Run σ) :
          eachDependency (settle src depth (path ++ [.scalar name])) package.dependencies entered =
            (eachDescent (descend (flatOpening src) depth (path ++ [.scalar name])) package.dependencies
              entered).walked :=
        walked_eachDescent fun _ _ _ => ih
      rw [settle, descend, flatOpening]
      split
      case isTrue => rfl
      case isFalse =>
        cases Requirement.ofJson requirement with
        | error m => rfl
        | ok req =>
            cases run.pins.get? name with
            | some version =>
                dsimp only
                split <;> rfl
            | none =>
                obtain ⟨fetched, answer⟩ := run.fetch src name
                cases answer with
                | error e => rfl
                | ok found =>
                    cases found with
                    | none => rfl
                    | some package =>
                        dsimp only
                        cases Version.latestMeeting? Version.ofText? req package.versions with
                        | none => rfl
                        | some version =>
                            dsimp only
                            rw [inside, Grown.walked_map]

theorem eachDependency_eq_descent :
    eachDependency (settle src depth path) deps run =
      (eachDescent (descend (flatOpening src) depth path) deps run).walked :=
  walked_eachDescent fun _ _ _ => settle_eq_descend

theorem ofCycle_ne_tooDeep (cycle : List Json) : Failure.ofCycle cycle ≠ .tooDeep := by
  rw [Failure.ofCycle]
  split <;> exact Failure.noConfusion

theorem flatOpening_guarded (src : Source σ) (lookup : Lookup) : (flatOpening src).Guarded src lookup := by
  intro path name requirement run hc
  obtain ⟨fetched, answered, constant, _⟩ := hc.fetch name
  rw [flatOpening, any_names, answered]
  split
  case isTrue => exact .ends (fun same => ofCycle_ne_tooDeep _ (Except.error.inj same)) hc
  case isFalse fresh =>
    cases Requirement.ofJson requirement with
    | error m => exact .ends nofun hc
    | ok req =>
        cases run.pins.get? name with
        | some version =>
            dsimp only
            split <;> exact .ends nofun hc
        | none =>
            cases found : lookup name with
            | none => exact .ends nofun constant
            | some package =>
                dsimp only
                cases Version.latestMeeting? Version.ofText? req package.versions with
                | none => exact .ends nofun constant
                | some version => exact .enters (eq_false_of_ne_true fresh) found constant

/-! ### Trees -/

/-- How growing a branch begins. -/
def treeOpening (src : Source σ) : Opening σ Tree := fun path name requirement run =>
  if path.any (·.names name) then .inl (endBranch name requirement run (.ofCycle (path ++ [.scalar name])))
  else
    match Requirement.ofJson requirement with
    | .error m => .inl (endBranch name requirement run (.resolve (.malformed m)))
    | .ok req =>
      match run.fetch src name with
      | (run, .error e) => .inl (run, .error (.lookup e))
      | (run, .ok none) => .inl (endBranch name requirement run (.resolve (.notFound name)))
      | (run, .ok (some package)) =>
        let run := run.note (Version.skippedTexts package.versionTexts)
        match Version.latestMeeting? Version.ofText? req package.versions with
        | none => .inl (endBranch name requirement run (.resolve (.noMatch name requirement)))
        | some version => .inr (package, .node package.name version requirement, run)

theorem eachBranch_eq_eachDescent (step : Scalar → Json → Run σ → Grown σ Tree) :
    eachBranch step deps run = eachDescent step deps run := by
  induction deps generalizing run with
  | nil => rfl
  | cons dependency rest ih =>
      obtain ⟨name, requirement⟩ := dependency
      rw [eachBranch, eachDescent]
      obtain ⟨after, result⟩ := step name requirement run
      cases result with
      | error failure => rfl
      | ok t =>
          simp only [ih]
          obtain ⟨final, others⟩ := eachDescent step rest after
          cases others <;> rfl

theorem Grown.node_eq_map (package : Package) (version : String) (requirement : Json) (g : Grown σ (List Tree)) :
    Grown.node package version requirement g = g.map (.node package.name version requirement) := by
  obtain ⟨run, result⟩ := g
  cases result <;> rfl

/-- Growing a branch is a descent. -/
theorem grow_eq_descend : grow src depth = descend (treeOpening src) depth := by
  induction depth with
  | zero => rfl
  | succ depth ih =>
      funext path name requirement run
      rw [grow, descend, treeOpening, ih]
      split
      case isTrue => rfl
      case isFalse =>
        cases Requirement.ofJson requirement with
        | error m => rfl
        | ok req =>
            obtain ⟨fetched, answer⟩ := run.fetch src name
            cases answer with
            | error e => rfl
            | ok found =>
                cases found with
                | none => rfl
                | some package =>
                    dsimp only
                    cases Version.latestMeeting? Version.ofText? req package.versions with
                    | none => rfl
                    | some version =>
                        dsimp only
                        rw [eachBranch_eq_eachDescent]
                        exact Grown.node_eq_map package version requirement _

theorem endBranch_guards {names : List Scalar} {failure : Failure} (other : failure ≠ .tooDeep)
    (constant : src.Constant run.source lookup) :
    Opening.Guards src lookup names name (.inl (endBranch name requirement run failure)) := by
  cases failure with
  | resolve error => exact .ends nofun constant
  | lookup e => exact .ends nofun constant
  | unfit how => exact .ends nofun constant
  | tooDeep => exact absurd rfl other

theorem treeOpening_guarded (src : Source σ) (lookup : Lookup) : (treeOpening src).Guarded src lookup := by
  intro path name requirement run hc
  obtain ⟨fetched, answered, constant, _⟩ := hc.fetch name
  rw [treeOpening, any_names, answered]
  split
  case isTrue => exact endBranch_guards (ofCycle_ne_tooDeep _) hc
  case isFalse fresh =>
    cases Requirement.ofJson requirement with
    | error m => exact endBranch_guards nofun hc
    | ok req =>
        cases found : lookup name with
        | none => exact endBranch_guards nofun constant
        | some package =>
            dsimp only
            cases Version.latestMeeting? Version.ofText? req package.versions with
            | none => exact endBranch_guards nofun constant
            | some version => exact .enters (eq_false_of_ne_true fresh) found constant

end ExprRegistry
