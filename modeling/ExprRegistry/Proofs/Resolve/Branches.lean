import ExprRegistry.Proofs.Resolve.Outcome

/-!
What a dependency tree shows. Below every package of the tree stand the dependencies that it declares, one by one and in
their order: a leaf where a dependency is already on the path, cannot be read, has no package or no version that meets
the requirement, and the package with the version that is selected otherwise. Shared dependencies are shown again on
every path. The names that are looked up are those of the tree in preorder, but for the leaves that are made before
anything is looked up. Main statement: `dependencyTree_unfolds`.
-/

namespace ExprRegistry

namespace Tree

def name : Tree → Json
  | node name _ _ _ => name
  | failed name _ _ => .scalar name

def requirement : Tree → Json
  | node _ _ requirement _ => requirement
  | failed _ requirement _ => requirement

/-- The kind of error that a leaf tells; a package tells none. -/
def errorKind? : Tree → Option String
  | node _ _ _ _ => none
  | failed _ _ error => some error.kindName

mutual

/-- A tree and all trees in it, each before those below it. -/
def preorder : Tree → List Tree
  | node name version requirement children => node name version requirement children :: preorderAll children
  | failed name requirement error => [failed name requirement error]

def preorderAll : List Tree → List Tree
  | [] => []
  | t :: rest => preorder t ++ preorderAll rest

end

/-- Whether a name had to be looked up to show it. -/
def isLookedUp (t : Tree) : Bool :=
  t.errorKind? != some "circular_dependency" && t.errorKind? != some "malformed_requirement"

/-- The names that are looked up, in preorder. -/
def lookedUp (trees : List Tree) : List Json := ((preorderAll trees).filter isLookedUp).map name

/-- A package somewhere in a tree which stands below some names: the names from the root to it, and its children. -/
inductive HasNode : List Json → Tree → List Json → List Tree → Prop
  | here {above name version requirement children} :
      HasNode above (.node name version requirement children) (above ++ [name]) children
  | inside {above name version requirement children child path inner} : child ∈ children →
      HasNode (above ++ [name]) child path inner →
      HasNode above (.node name version requirement children) path inner

theorem lookedUp_nil : lookedUp [] = [] := rfl

theorem lookedUp_node (name : Json) (version : String) (requirement : Json) (children trees : List Tree) :
    lookedUp (.node name version requirement children :: trees) =
      name :: (lookedUp children ++ lookedUp trees) := by
  have package : isLookedUp (.node name version requirement children) = true := rfl
  rw [lookedUp, preorderAll, preorder, List.cons_append, List.filter_cons_of_pos package, List.map_cons,
    List.filter_append, List.map_append]
  rfl

theorem lookedUp_failed (n : Scalar) (requirement : Json) (error : ResolveError) (trees : List Tree) :
    lookedUp (.failed n requirement error :: trees) =
      if isLookedUp (.failed n requirement error) then .scalar n :: lookedUp trees else lookedUp trees := by
  rw [lookedUp, preorderAll, preorder, List.singleton_append, List.filter_cons]
  split <;> rfl

end Tree

namespace Lookup

/-- How a tree shows a dependency under the names from the root to its package. -/
structure Shows (lookup : Lookup) (path : List Json) (dependency : Scalar × Json) (child : Tree) : Prop where
  name : child.name = .scalar dependency.1
  requirement : child.requirement = dependency.2
  circular : child.errorKind? = some "circular_dependency" ↔ .scalar dependency.1 ∈ path
  malformed : .scalar dependency.1 ∉ path →
    (child.errorKind? = some "malformed_requirement" ↔ ∃ m, Requirement.ofJson dependency.2 = .error m)
  notFound : .scalar dependency.1 ∉ path → ∀ req, Requirement.ofJson dependency.2 = .ok req →
    (child.errorKind? = some "package_not_found" ↔ lookup dependency.1 = none)
  noMatch : .scalar dependency.1 ∉ path → ∀ req, Requirement.ofJson dependency.2 = .ok req →
    ∀ package, lookup dependency.1 = some package →
      (child.errorKind? = some "no_matching_version" ↔
        ∀ s ∈ package.versions, ¬ req.admitsJson (.str s) = true)
  node : .scalar dependency.1 ∉ path → ∀ req, Requirement.ofJson dependency.2 = .ok req →
    ∀ package, lookup dependency.1 = some package → (∃ s ∈ package.versions, req.admitsJson (.str s) = true) →
      ∃ version children, Version.latestMeeting? Version.ofText? req package.versions = some version ∧
        child = .node (.scalar dependency.1) version dependency.2 children

variable {lookup : Lookup} {path : List Scalar} {deps : Fields} {name : Scalar} {requirement : Json}
  {looked looked' : List Json} {trees : List Tree} {error : ResolveError} {package : Package} {version : String}
  {root : Scalar}

/-! ### One dependency -/

/-- A text is the same name as those that it is equal to only. -/
theorem any_iff_mem (text : name.isText = true) : path.any (· == name) = true ↔ .scalar name ∈ path.map Json.scalar := by
  obtain ⟨s, rfl⟩ := Scalar.exists_of_isText text
  rw [List.any_eq_true, List.mem_map]
  constructor
  · rintro ⟨n, member, same⟩
    exact ⟨n, member, congrArg Json.scalar (Scalar.eq_str_of_same same)⟩
  · rintro ⟨n, member, same⟩
    cases same
    exact ⟨_, member, BEq.rfl⟩

theorem not_mem_of_fresh (text : name.isText = true) (fresh : path.any (· == name) = false) :
    .scalar name ∉ path.map Json.scalar := by
  rw [← any_iff_mem text, fresh]
  exact Bool.false_ne_true

/-- Without pins a dependency is refused because it is on the path or cannot be read. -/
theorem refused_without_pins (hs : lookup.step path [] name requirement = .refuse (.resolve error)) :
    (path.any (· == name) = true ∧ ∃ cycle, error = .circular cycle) ∨
      (path.any (· == name) = false ∧ ∃ m, Requirement.ofJson requirement = .error m ∧ error = .malformed m) := by
  rcases step_eq_refuse hs with ⟨met, told⟩ | ⟨fresh, m, unread, told⟩ | ⟨_, _, _, _, pinned, _⟩
  · rw [Failure.ofCycle] at told
    split at told
    · cases told
      exact .inl ⟨met, _, rfl⟩
    · cases told
  · cases told
    exact .inr ⟨fresh, m, unread, rfl⟩
  · cases pinned

theorem none_admitted_iff {req : Requirement} {versions : List String} :
    Version.latestMeeting? Version.ofText? req versions = none ↔ ∀ s ∈ versions, ¬ req.admitsJson (.str s) = true := by
  rw [Version.latestMeeting?_eq_none_iff]
  apply forall₂_congr
  intro s _
  rw [Requirement.admitsJson_str_iff]
  simp only [not_exists, not_and, Bool.not_eq_true]

theorem shows_of_refuse (text : name.isText = true)
    (hs : lookup.step path [] name requirement = .refuse (.resolve error)) :
    lookup.Shows (path.map .scalar) (name, requirement) (.failed name requirement error) := by
  rcases refused_without_pins hs with ⟨met, cycle, rfl⟩ | ⟨fresh, m, unread, rfl⟩
  · have member := (any_iff_mem text).mp met
    exact ⟨rfl, rfl, iff_of_true rfl member, absurd member, absurd member, absurd member, absurd member⟩
  · have off := not_mem_of_fresh text fresh
    have unreadable {req : Requirement} (read : Requirement.ofJson requirement = .ok req) : False := by
      rw [unread] at read
      cases read
    exact ⟨rfl, rfl, iff_of_false (by simp [Tree.errorKind?, ResolveError.kindName]) off,
      fun _ => iff_of_true rfl ⟨m, unread⟩, fun _ _ read => (unreadable read).elim,
      fun _ _ read => (unreadable read).elim, fun _ _ read => (unreadable read).elim⟩

theorem shows_of_miss (text : name.isText = true)
    (hs : lookup.step path [] name requirement = .miss (.resolve error)) :
    lookup.Shows (path.map .scalar) (name, requirement) (.failed name requirement error) := by
  obtain ⟨fresh, req, read, -, reason⟩ := step_eq_miss hs
  have off := not_mem_of_fresh text fresh
  have readable : ¬ ∃ m, Requirement.ofJson requirement = .error m := by
    rintro ⟨m, unread⟩
    rw [read] at unread
    cases unread
  have same {other : Requirement} (again : Requirement.ofJson requirement = .ok other) : other = req :=
    Except.ok.inj (again.symm.trans read)
  rcases reason with ⟨missing, told⟩ | ⟨package, found, unmatched, told⟩
  · cases told
    have absent {package : Package} (found : lookup name = some package) : False := by
      rw [missing] at found
      cases found
    exact ⟨rfl, rfl, iff_of_false (by simp [Tree.errorKind?, ResolveError.kindName]) off,
      fun _ => iff_of_false (by simp [Tree.errorKind?, ResolveError.kindName]) readable,
      fun _ _ _ => iff_of_true rfl missing, fun _ _ _ _ found => (absent found).elim,
      fun _ _ _ _ found => (absent found).elim⟩
  · cases told
    have unmet := none_admitted_iff.mp unmatched
    refine ⟨rfl, rfl, iff_of_false (by simp [Tree.errorKind?, ResolveError.kindName]) off,
      fun _ => iff_of_false (by simp [Tree.errorKind?, ResolveError.kindName]) readable, ?_, ?_, ?_⟩
    · intro _ _ _
      rw [found]
      exact iff_of_false (by simp [Tree.errorKind?, ResolveError.kindName]) (Option.some_ne_none package)
    · intro _ other again stored found'
      cases same again
      cases found.symm.trans found'
      exact iff_of_true rfl unmet
    · rintro _ other again stored found' ⟨s, member, admitted⟩
      cases same again
      cases found.symm.trans found'
      exact absurd admitted (unmet s member)

theorem shows_of_enter (hl : lookup.ByName) (text : name.isText = true)
    (hs : lookup.step path [] name requirement = .enter package version) (children : List Tree) :
    package.name = .scalar name ∧
      lookup.Shows (path.map .scalar) (name, requirement) (.node package.name version requirement children) := by
  obtain ⟨fresh, -, found, chosen⟩ := step_eq_enter hs
  obtain ⟨package', req, found', read, selected⟩ := choice_eq_some_iff.mp chosen
  cases found.symm.trans found'
  obtain ⟨own, named, spelled⟩ := hl.name_eq found
  obtain ⟨s, rfl⟩ := Scalar.exists_of_isText text
  cases Scalar.eq_str_of_same spelled
  have off := not_mem_of_fresh text fresh
  have same {other : Requirement} (again : Requirement.ofJson requirement = .ok other) : other = req :=
    Except.ok.inj (again.symm.trans read)
  refine ⟨named, named, rfl, iff_of_false nofun off, fun _ => iff_of_false nofun ?_, ?_, ?_, ?_⟩
  · rintro ⟨m, unread⟩
    rw [read] at unread
    cases unread
  · intro _ _ _
    rw [found]
    exact iff_of_false nofun nofun
  · intro _ other again stored found'
    cases same again
    cases found.symm.trans found'
    rw [← none_admitted_iff, selected]
    exact iff_of_false nofun nofun
  · intro _ other again stored found' _
    cases same again
    cases found.symm.trans found'
    exact ⟨version, children, selected, by rw [named]⟩

/-! ### All dependencies -/

namespace Grows

-- Only names that are texts can be told in a cycle.
variable (texts : ∀ d q, lookup.Edge root d q → d.isText = true)

include texts

/-- Each dependency is shown by a tree of its own. -/
theorem shows (hl : lookup.ByName) (g : lookup.Grows path deps looked looked' trees)
    (edges : ∀ e ∈ deps, lookup.Edge root e.1 e.2) :
    List.Forall₂ (lookup.Shows (path.map .scalar)) deps trees := by
  induction g with
  | done => exact .nil
  | refuse hs _ ih =>
      obtain ⟨edge, later⟩ := List.forall_mem_cons.mp edges
      exact .cons (shows_of_refuse (texts _ _ edge) hs) (ih later)
  | miss hs _ ih =>
      obtain ⟨edge, later⟩ := List.forall_mem_cons.mp edges
      exact .cons (shows_of_miss (texts _ _ edge) hs) (ih later)
  | enter hs _ _ _ ihRest =>
      obtain ⟨edge, later⟩ := List.forall_mem_cons.mp edges
      exact .cons (shows_of_enter hl (texts _ _ edge) hs _).2 (ihRest later)

/-- Every package in the trees has the dependencies that it declares below it. -/
theorem shows_node (hl : lookup.ByName) (g : lookup.Grows path deps looked looked' trees)
    (edges : ∀ e ∈ deps, lookup.Edge root e.1 e.2) {t : Tree} {handed : List Json} {inner : List Tree}
    (member : t ∈ trees) (located : t.HasNode (path.map .scalar) handed inner) :
    ∃ above n package, handed = above ++ [.scalar n] ∧ lookup n = some package ∧
      List.Forall₂ (lookup.Shows handed) package.dependencies inner := by
  induction g generalizing t handed inner with
  | done => cases member
  | refuse hs _ ih =>
      rcases List.mem_cons.mp member with rfl | later
      · cases located
      · exact ih (List.forall_mem_cons.mp edges).2 later located
  | miss hs _ ih =>
      rcases List.mem_cons.mp member with rfl | later
      · cases located
      · exact ih (List.forall_mem_cons.mp edges).2 later located
  | @enter path name requirement rest looked mid looked' package version children trees hs below _ ihBelow ihRest =>
      obtain ⟨edge, laterEdges⟩ := List.forall_mem_cons.mp edges
      rcases List.mem_cons.mp member with rfl | later
      · obtain ⟨named, -⟩ := shows_of_enter hl (texts _ _ edge) hs children
        obtain ⟨_, _, found, _⟩ := step_eq_enter hs
        have edgesBelow (e : Scalar × Json) (inside : e ∈ package.dependencies) : lookup.Edge root e.1 e.2 :=
          edge.next e.1 e.2 (declares_of_mem found inside)
        have longer : (path ++ [name]).map Json.scalar = path.map .scalar ++ [.scalar name] := by
          rw [List.map_append, List.map_singleton]
        rw [named] at located
        cases located with
        | here =>
            refine ⟨path.map .scalar, name, package, rfl, found, ?_⟩
            rw [← longer]
            exact below.shows texts hl edgesBelow
        | inside within deeper =>
            rw [← longer] at deeper
            exact ihBelow edgesBelow within deeper
      · exact ihRest laterEdges later located

/-- The names that are looked up for the trees are those that they show, in preorder. -/
theorem looked_eq (hl : lookup.ByName) (g : lookup.Grows path deps looked looked' trees)
    (edges : ∀ e ∈ deps, lookup.Edge root e.1 e.2) : looked' = looked ++ Tree.lookedUp trees := by
  induction g with
  | done => rw [Tree.lookedUp_nil, List.append_nil]
  | @refuse path name requirement rest looked looked' error trees hs _ ih =>
      have early : Tree.isLookedUp (.failed name requirement error) = false := by
        rcases refused_without_pins hs with ⟨_, cycle, rfl⟩ | ⟨_, m, _, rfl⟩ <;> rfl
      rw [ih (List.forall_mem_cons.mp edges).2, Tree.lookedUp_failed, early, if_neg Bool.false_ne_true]
  | @miss path name requirement rest looked looked' error trees hs _ ih =>
      have asked : Tree.isLookedUp (.failed name requirement error) = true := by
        obtain ⟨_, _, _, _, ⟨_, told⟩ | ⟨_, _, _, told⟩⟩ := step_eq_miss hs <;> cases told <;> rfl
      rw [ih (List.forall_mem_cons.mp edges).2, Tree.lookedUp_failed, asked, if_pos rfl, List.append_assoc,
        List.singleton_append]
  | @enter path name requirement rest looked mid looked' package version children trees hs _ _ ihBelow ihRest =>
      obtain ⟨edge, later⟩ := List.forall_mem_cons.mp edges
      obtain ⟨named, -⟩ := shows_of_enter hl (texts _ _ edge) hs children
      obtain ⟨_, _, found, _⟩ := step_eq_enter hs
      have edgesBelow (e : Scalar × Json) (inside : e ∈ package.dependencies) : lookup.Edge root e.1 e.2 :=
        edge.next e.1 e.2 (declares_of_mem found inside)
      rw [ihRest later, ihBelow edgesBelow, Tree.lookedUp_node, named]
      simp only [List.append_assoc, List.cons_append, List.nil_append]

end Grows

end Lookup

variable {σ : Type} {src : Source σ} {state : σ} {lookup : Lookup}

/-- The tree of a package shows all simple paths of dependencies from it. Below every package of the tree stand the
dependencies that it declares, in their order and with their requirements, each as an error leaf or as the package with
the version that is selected. The names that were looked up are those of the tree in preorder, without the leaves that
close a cycle or cannot be read. -/
theorem dependencyTree_unfolds (hc : src.Constant state lookup) (finite : src.Finite state lookup) {root : String}
    {package : Package} (found : lookup root = some package)
    (texts : ∀ d q, lookup.Edge root d q → d.isText = true) :
    ∃ children, let t : Tree := .node (.str root) (Version.latestText package.versions) .null children
      (dependencyTree src (.str root) state).2 = .ok t ∧
      (∀ path inner, t.HasNode [] path inner → ∃ above n package, path = above ++ [.scalar n] ∧
        lookup n = some package ∧ List.Forall₂ (lookup.Shows path) package.dependencies inner) ∧
      (dependencyTree src (.str root) state).1.lookups = (t.preorder.filter Tree.isLookedUp).map Tree.name := by
  have hl := hc.toByName
  obtain ⟨name, named, same⟩ := hc.name_eq found
  cases Scalar.eq_str_of_same same
  have edges (e : Scalar × Json) (member : e ∈ package.dependencies) : lookup.Edge root e.1 e.2 :=
    ⟨.str root, .start BEq.rfl, Lookup.declares_of_mem found member⟩
  obtain ⟨looked, children, grown⟩ := Lookup.exists_grows finite texts (src.depthBound state)
    (Lookup.simple_singleton found) (by rw [Source.depthBound, List.length_singleton]; omega)
    (List.forall_mem_singleton.mpr rfl) edges [.str root]
  obtain ⟨result, lookups⟩ := hc.dependencyTree_of_grows finite found named grown
  refine ⟨children, result, ?_, ?_⟩
  · intro path inner located
    cases located with
    | here => exact ⟨[], .str root, package, rfl, found, grown.shows texts hl edges⟩
    | inside member deeper => exact grown.shows_node texts hl edges member deeper
  · rw [lookups, grown.looked_eq texts hl edges]
    rfl

/-- The tangle is shown with the packages that are shared once for each path to them, a leaf where `tool` closes the cycle
and one for what is gone, which was looked up. -/
theorem dependencyTree_unfolds_tangle :
    (Lookup.ofTable tangle "app").isSome = true ∧
      (∀ d q, (Lookup.ofTable tangle).Edge "app" d q → d.isText = true) ∧
      ∃ children, let t : Tree := .node (.str "app") "1.0.0" .null children
        (dependencyTree Source.ofTable (.str "app") tangle).2 = .ok t ∧
        (∀ path inner, t.HasNode [] path inner → ∃ above n package, path = above ++ [.scalar n] ∧
          Lookup.ofTable tangle n = some package ∧
          List.Forall₂ ((Lookup.ofTable tangle).Shows path) package.dependencies inner) ∧
        (t.preorder.filter Tree.isLookedUp).map Tree.name = [.str "app", .str "left", .str "base", .str "right",
          .str "base", .str "left", .str "base", .str "tool", .str "gone"] := by
  obtain ⟨children, grown, nodes, lookups⟩ :=
    dependencyTree_unfolds (Source.ofTable_constant (by decide)) (Source.ofTable_finite tangle) rfl tangle_texts
  exact ⟨rfl, tangle_texts, children, grown, nodes, lookups.symm⟩

end ExprRegistry
