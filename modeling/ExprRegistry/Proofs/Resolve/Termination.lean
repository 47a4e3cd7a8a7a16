import ExprRegistry.Proofs.Resolve.Descent
import ExprRegistry.Proofs.Resolve.Outcome

/-!
The end of resolutions. Where there are finitely many packages no resolution exhausts its bound, on cyclic graphs
neither, and a larger bound changes nothing, so they would end without one. Main statement: `resolution_ends`, by which
also the path that is handed down does not repeat a package, and no name is looked up twice where versions are pinned.
-/

namespace ExprRegistry

variable {σ : Type} {src : Source σ} {state : σ} {lookup : Lookup} {handed : List Json} {names : List Scalar}
  {deps : Fields} {run : Run σ}

/-- A run that does not end because its bound is exhausted, and that comes to the same with any larger bound. -/
def Source.Ends {β : Type} (src : Source σ) (state : σ)
    (resolution : Source σ → σ → Run σ × Except Failure β) : Prop :=
  (resolution src state).2 ≠ .error .tooDeep ∧
    ∀ bound : σ → Nat, src.bound state ≤ bound state → resolution (src.within bound) state = resolution src state

/-- The paths that are handed down in the resolution of a package. -/
def Source.HandsInResolve (src : Source σ) (root : Json) (state : σ) (handed : List Json) : Prop :=
  ∃ run package name, (Run.start state).fetch src root = (run, .ok (some package)) ∧ package.name = .scalar name ∧
    (flatOpening src).Hands (src.depthBound state) [package.name] package.dependencies
      ((run.note (Version.skippedTexts package.versionTexts)).pin name (Version.latestText package.versions)) handed

/-- The paths that are handed down in the resolution of requirements. -/
def Source.HandsInRequirements (src : Source σ) (requirements : Fields) (state : σ) (handed : List Json) : Prop :=
  (flatOpening src).Hands (src.depthBound state) [] requirements (Run.start state) handed

/-- The paths that are handed down while a tree is grown. -/
def Source.HandsInTree (src : Source σ) (root : Json) (state : σ) (handed : List Json) : Prop :=
  ∃ run package, (Run.start state).fetch src root = (run, .ok (some package)) ∧
    (treeOpening src).Hands (src.depthBound state) [package.name] package.dependencies
      (run.note (Version.skippedTexts package.versionTexts)) handed

variable {root : Scalar}

namespace Source.Constant

/-- The package of a root that is found is a path by itself. -/
theorem of_fetch_root (hc : src.Constant state lookup) {package : Package}
    (fetched : (Run.start state).fetch src (.scalar root) = (run, .ok (some package))) :
    src.Constant run.source lookup ∧ ∃ name, package.name = .scalar name ∧ lookup.Simple [name] := by
  have started : src.Constant (Run.start state).source lookup := hc
  obtain ⟨run', answered, constant, _⟩ := started.fetch root
  obtain ⟨rfl, answer⟩ := Prod.ext_iff.mp (fetched.symm.trans answered)
  have found : lookup root = some package := (Except.ok.inj answer).symm
  obtain ⟨name, named, same⟩ := hc.name_eq found
  exact ⟨constant, name, named, Lookup.simple_singleton ((hc.same same).trans found)⟩

theorem visits_of_resolve (hc : src.Constant state lookup) (h : src.HandsInResolve (.scalar root) state handed) :
    lookup.Visits handed := by
  obtain ⟨run, package, name, fetched, named, hands⟩ := h
  obtain ⟨constant, _, spelled, simple⟩ := hc.of_fetch_root fetched
  rw [spelled, ← List.map_singleton] at hands
  exact (flatOpening_guarded src lookup).visits hands constant simple

theorem visits_of_requirements (hc : src.Constant state lookup) {requirements : Fields}
    (h : src.HandsInRequirements requirements state handed) : lookup.Visits handed := by
  rw [HandsInRequirements, ← List.map_nil] at h
  exact (flatOpening_guarded src lookup).visits h hc ⟨.nil, List.forall_mem_nil _⟩

theorem visits_of_tree (hc : src.Constant state lookup) (h : src.HandsInTree (.scalar root) state handed) :
    lookup.Visits handed := by
  obtain ⟨run, package, fetched, hands⟩ := h
  obtain ⟨constant, name, spelled, simple⟩ := hc.of_fetch_root fetched
  rw [spelled, ← List.map_singleton] at hands
  exact (treeOpening_guarded src lookup).visits hands constant simple

/-- The walk over some dependencies has one end within all bounds. -/
theorem exists_settled (hc : src.Constant run.source lookup) (simple : lookup.Simple names)
    (finite : src.Finite state lookup) (deps : Fields) :
    ∃ last out, out ≠ some .tooDeep ∧
      eachDependency (settle src (src.depthBound state) (names.map .scalar)) deps run = (last, out) ∧
      ∀ bound : σ → Nat, src.bound state ≤ bound state →
        eachDependency (settle (src.within bound) ((src.within bound).depthBound state) (names.map .scalar)) deps run =
          (last, out) := by
  obtain ⟨last, result, ends, same⟩ := (flatOpening_guarded src lookup).exists_end hc simple finite deps
  have walked (bound : σ → Nat) (larger : src.bound state ≤ bound state) :
      eachDependency (settle (src.within bound) ((src.within bound).depthBound state) (names.map .scalar)) deps run =
        Grown.walked (last, result) := by
    rw [eachDependency_eq_descent, ← same bound larger]
    rfl
  cases result with
  | error failure =>
      refine ⟨last, some failure, ?_, walked src.bound (Nat.le_refl _), walked⟩
      rintro ⟨⟩
      exact ends rfl
  | ok units => exact ⟨last, none, nofun, walked src.bound (Nat.le_refl _), walked⟩

/-- The branches below a path have one end within all bounds. -/
theorem exists_grown (hc : src.Constant run.source lookup) (simple : lookup.Simple names)
    (finite : src.Finite state lookup) (deps : Fields) :
    ∃ last out, out ≠ .error .tooDeep ∧
      eachBranch (grow src (src.depthBound state) (names.map .scalar)) deps run = (last, out) ∧
      ∀ bound : σ → Nat, src.bound state ≤ bound state →
        eachBranch (grow (src.within bound) ((src.within bound).depthBound state) (names.map .scalar)) deps run =
          (last, out) := by
  obtain ⟨last, result, ends, same⟩ := (treeOpening_guarded src lookup).exists_end hc simple finite deps
  have grown (bound : σ → Nat) (larger : src.bound state ≤ bound state) :
      eachBranch (grow (src.within bound) ((src.within bound).depthBound state) (names.map .scalar)) deps run =
        (last, result) := by
    rw [eachBranch_eq_eachDescent, grow_eq_descend, ← same bound larger]
    rfl
  exact ⟨last, result, ends, grown src.bound (Nat.le_refl _), grown⟩

theorem resolve_ends (hc : src.Constant state lookup) (finite : src.Finite state lookup) (root : Scalar) :
    src.Ends state fun src => resolve src (.scalar root) := by
  have started : src.Constant (Run.start state).source lookup := hc
  obtain ⟨fetched, answered, _, _⟩ := started.fetch root
  have within (bound : σ → Nat) : (Run.start state).fetch (src.within bound) (.scalar root) = _ := answered
  cases found : lookup root with
  | none =>
      simp only [found] at answered within
      refine ⟨?_, fun bound _ => ?_⟩
      · simp only [resolve, answered]
        intro h
        cases h
      · simp only [resolve, answered, within]
  | some package =>
      simp only [found] at answered within
      obtain ⟨constant, name, named, simple⟩ := hc.of_fetch_root answered
      have ready : src.Constant ((fetched.note (Version.skippedTexts package.versionTexts)).pin name
        (Version.latestText package.versions)).source lookup := constant
      obtain ⟨last, out, ends, settled, same⟩ := ready.exists_settled simple finite package.dependencies
      rw [List.map_singleton] at settled same
      refine ⟨?_, fun bound larger => ?_⟩
      · simp only [resolve, answered, named, Json.scalar?, settled]
        cases out with
        | none =>
            intro h
            cases h
        | some failure =>
            intro h
            cases h
            exact ends rfl
      · simp only [resolve, answered, within, named, Json.scalar?, settled, same bound larger]

theorem resolveRequirements_ends (hc : src.Constant state lookup) (finite : src.Finite state lookup)
    (requirements : Fields) : src.Ends state fun src => resolveRequirements src requirements := by
  have started : src.Constant (Run.start state).source lookup := hc
  obtain ⟨last, out, ends, settled, same⟩ := started.exists_settled ⟨.nil, List.forall_mem_nil _⟩ finite requirements
  rw [List.map_nil] at settled same
  refine ⟨?_, fun bound larger => ?_⟩
  · simp only [resolveRequirements, settled]
    cases out with
    | none =>
        intro h
        cases h
    | some failure =>
        intro h
        cases h
        exact ends rfl
  · simp only [resolveRequirements, settled, same bound larger]

theorem dependencyTree_ends (hc : src.Constant state lookup) (finite : src.Finite state lookup) (root : Scalar) :
    src.Ends state fun src => dependencyTree src (.scalar root) := by
  have started : src.Constant (Run.start state).source lookup := hc
  obtain ⟨fetched, answered, _, _⟩ := started.fetch root
  have within (bound : σ → Nat) : (Run.start state).fetch (src.within bound) (.scalar root) = _ := answered
  cases found : lookup root with
  | none =>
      simp only [found] at answered within
      refine ⟨?_, fun bound _ => ?_⟩
      · simp only [dependencyTree, answered]
        intro h
        cases h
      · simp only [dependencyTree, answered, within]
  | some package =>
      simp only [found] at answered within
      obtain ⟨constant, name, named, simple⟩ := hc.of_fetch_root answered
      have ready : src.Constant (fetched.note (Version.skippedTexts package.versionTexts)).source lookup := constant
      obtain ⟨last, out, ends, grown, same⟩ := ready.exists_grown simple finite package.dependencies
      rw [List.map_singleton] at grown same
      refine ⟨?_, fun bound larger => ?_⟩
      · simp only [dependencyTree, answered, named, grown]
        cases out with
        | ok children =>
            intro h
            cases h
        | error failure =>
            intro h
            cases h
            exact ends rfl
      · simp only [dependencyTree, answered, within, named, grown, same bound larger]

end Source.Constant

/-! ### Lookups -/

/-- Names that are all different. -/
def Different (names : List Scalar) : Prop := names.Pairwise fun a b => (a == b) = false

theorem Different.respell {a b : Scalar} {names : List Scalar} (h : Different (b :: names)) (same : (a == b) = true) :
    Different (a :: names) := by
  obtain ⟨first, rest⟩ := List.pairwise_cons.mp h
  refine List.pairwise_cons.mpr ⟨fun n member => ?_, rest⟩
  rw [BEq.congr_left same]
  exact first n member

namespace Lookup.Walk

variable {trail : List Scalar} {s s' : Progress} {out : Option Failure}

/-- What is looked up is pinned, but for the last name where the walk fails. -/
theorem exists_looked (w : lookup.Walk trail deps s s' out) :
    ∃ new missed : List Scalar, s'.looked = s.looked ++ (new ++ missed).map .scalar ∧
      s'.pins.keys = s.pins.keys ++ new ∧ (out = none → missed = []) ∧
      (missed = [] ∨ ∃ n, missed = [n] ∧ s'.pins.has n = false) := by
  induction w with
  | done => exact ⟨[], [], (List.append_nil _).symm, (List.append_nil _).symm, fun _ => rfl, .inl rfl⟩
  | keep _ _ ih => exact ih
  | refuse _ => exact ⟨[], [], (List.append_nil _).symm, (List.append_nil _).symm, fun _ => rfl, .inl rfl⟩
  | @miss trail name requirement rest s failure hs =>
      obtain ⟨_, _, _, unpinned, _⟩ := step_eq_miss hs
      exact ⟨[], [name], rfl, (List.append_nil _).symm, nofun, .inr ⟨name, rfl, Table.get?_eq_none_iff.mp unpinned⟩⟩
  | @sink trail name requirement rest s s' package version failure hs _ ih =>
      obtain ⟨new, missed, looked, keys, _, last⟩ := ih
      refine ⟨name :: new, missed, ?_, ?_, nofun, last⟩
      · rw [looked]
        simp [Progress.look, Progress.pin]
      · rw [keys, pins_of_enter hs]
        simp [Table.keys]
  | @enter trail name requirement rest s mid s' package version out hs _ _ ihBelow ihRest =>
      obtain ⟨below, none, lookedBelow, keysBelow, pinned, _⟩ := ihBelow
      obtain ⟨new, missed, looked, keys, complete, last⟩ := ihRest
      refine ⟨name :: (below ++ new), missed, ?_, ?_, complete, last⟩
      · rw [looked, lookedBelow, pinned rfl]
        simp [Progress.look, Progress.pin]
      · rw [keys, keysBelow, pins_of_enter hs]
        simp [Table.keys]

/-- The names that a walk looks up are different from each other and from all that was pinned before. -/
theorem looks_once (w : lookup.Walk trail deps s s' out) (h : s.pins.Distinct) :
    ∃ names : List Scalar, s'.looked = s.looked ++ names.map .scalar ∧ Different (s.pins.keys ++ names) ∧
      (out = none → s'.pins.keys = s.pins.keys ++ names) := by
  obtain ⟨new, missed, looked, keys, complete, last⟩ := w.exists_looked
  have distinct := Table.distinct_iff_keys.mp (w.distinct h)
  rcases last with rfl | ⟨n, rfl, unpinned⟩
  · rw [List.append_nil] at looked
    exact ⟨new, looked, keys ▸ distinct, fun _ => keys⟩
  · refine ⟨new ++ [n], looked, ?_, fun ends => absurd (complete ends) (List.cons_ne_nil n [])⟩
    rw [← List.append_assoc, ← keys]
    refine List.pairwise_append.mpr ⟨distinct, List.pairwise_singleton _ n, fun k member m last => ?_⟩
    obtain ⟨e, listed, rfl⟩ := List.mem_map.mp member
    rw [List.mem_singleton.mp last]
    exact Table.has_eq_false_iff.mp unpinned e listed

end Lookup.Walk

namespace Source.Constant

theorem resolve_looks_once (hc : src.Constant state lookup) (finite : src.Finite state lookup) (root : Scalar) :
    ∃ names : List Scalar, (resolve src (.scalar root) state).1.lookups = names.map .scalar ∧ Different names ∧
      ∀ pins, (resolve src (.scalar root) state).2 = .ok pins →
        List.Forall₂ (fun n k => (n == k) = true) names pins.keys := by
  cases found : lookup root with
  | none =>
      obtain ⟨failed, looked⟩ := hc.resolve_of_missing found
      refine ⟨[root], looked, List.pairwise_singleton _ root, fun pins succeeded => ?_⟩
      rw [failed] at succeeded
      cases succeeded
  | some package =>
      obtain ⟨name, _, same, s, out, walk, result, looked⟩ := hc.resolve_walk finite found
      obtain ⟨names, added, different, complete⟩ := walk.looks_once (List.pairwise_singleton _ _)
      refine ⟨root :: names, looked.trans added, different.respell (BEq.symm same), fun pins succeeded => ?_⟩
      rw [result] at succeeded
      cases out with
      | some failure => cases succeeded
      | none =>
          cases succeeded
          rw [complete rfl]
          exact .cons (BEq.symm same) (List.forall₂_same.mpr fun _ _ => BEq.rfl)

theorem resolveRequirements_looks_once (hc : src.Constant state lookup) (finite : src.Finite state lookup)
    (requirements : Fields) :
    ∃ names : List Scalar, (resolveRequirements src requirements state).1.lookups = names.map .scalar ∧
      Different names ∧ ∀ pins, (resolveRequirements src requirements state).2 = .ok pins → names = pins.keys := by
  obtain ⟨s, out, walk, result, looked⟩ := hc.resolveRequirements_walk finite requirements
  obtain ⟨names, added, different, complete⟩ := walk.looks_once .nil
  refine ⟨names, looked.trans added, different, fun pins succeeded => ?_⟩
  rw [result] at succeeded
  cases out with
  | some failure => cases succeeded
  | none =>
      cases succeeded
      exact (complete rfl).symm

end Source.Constant

/-- Resolutions and trees over finitely many packages end, whatever the packages depend on, and no larger bound
changes what they come to. The path that is handed down holds different packages only, so it is no longer than there
are packages. Where versions are pinned no name is looked up twice, also if the resolution fails, and one that succeeds
has looked up the names that it pins, in their order. -/
theorem resolution_ends (hc : src.Constant state lookup) (finite : src.Finite state lookup) (root : Scalar)
    (requirements : Fields) :
    (src.Ends state (fun src => resolve src (.scalar root)) ∧
      (∀ handed, src.HandsInResolve (.scalar root) state handed → lookup.Visits handed) ∧
      ∃ names : List Scalar, (resolve src (.scalar root) state).1.lookups = names.map .scalar ∧ Different names ∧
        ∀ pins, (resolve src (.scalar root) state).2 = .ok pins →
          List.Forall₂ (fun n k => (n == k) = true) names pins.keys) ∧
    (src.Ends state (fun src => resolveRequirements src requirements) ∧
      (∀ handed, src.HandsInRequirements requirements state handed → lookup.Visits handed) ∧
      ∃ names : List Scalar, (resolveRequirements src requirements state).1.lookups = names.map .scalar ∧
        Different names ∧
        ∀ pins, (resolveRequirements src requirements state).2 = .ok pins → names = pins.keys) ∧
    src.Ends state (fun src => dependencyTree src (.scalar root)) ∧
      ∀ handed, src.HandsInTree (.scalar root) state handed → lookup.Visits handed :=
  ⟨⟨hc.resolve_ends finite root, fun _ => hc.visits_of_resolve, hc.resolve_looks_once finite root⟩,
    ⟨hc.resolveRequirements_ends finite requirements, fun _ => hc.visits_of_requirements,
      hc.resolveRequirements_looks_once finite requirements⟩,
    hc.dependencyTree_ends finite root, fun _ => hc.visits_of_tree⟩

/-- On the cycle between two of the five packages a tree hands down no path with more than five names, and the
resolution that the cycle stops has looked up each name once. -/
theorem resolution_ends_tangle :
    Source.ofTable.Ends tangle (fun src => dependencyTree src (.str "app")) ∧
      (∀ handed, Source.ofTable.HandsInTree (.str "app") tangle handed → handed.length ≤ 5) ∧
      (resolve Source.ofTable (.str "app") tangle).1.lookups =
        [.str "app", .str "left", .str "base", .str "right", .str "tool"] := by
  have constant : Source.ofTable.Constant tangle (Lookup.ofTable tangle) := Source.ofTable_constant (by decide)
  obtain ⟨_, _, ends, visits⟩ := resolution_ends constant (Source.ofTable_finite tangle) "app" []
  exact ⟨ends, fun handed hands => (visits handed hands).short (Lookup.ofTable_atMost tangle), rfl⟩

end ExprRegistry
