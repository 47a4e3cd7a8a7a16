import ExprRegistry.Proofs.Json.Parts
import ExprRegistry.Proofs.Resolve.Agreement

/-!
Trees beside flat resolution that fails. A flat walk leaves out what is pinned, and a tree shows it again,
with other requirements and below other packages. What is pinned off the path is settled: it has an unfolding
off the path in which each dependency selects a version, so a tree shows it without a failure. So the first
failure of the tree is what stopped the walk. Main statement: `dependencyTree_first_failure`.
-/

namespace ExprRegistry

namespace Tree

mutual

/-- The errors of the leaves of a tree, in preorder. -/
def failures : Tree → List ResolveError
  | node _ _ _ children => failuresAll children
  | failed _ _ error => [error]

def failuresAll : List Tree → List ResolveError
  | [] => []
  | t :: rest => failures t ++ failuresAll rest

end

mutual

theorem failures_eq_nil_iff : (t : Tree) → t.failures = [] ↔ t.hasFailure = false
  | node _ _ _ children => by rw [failures, hasFailure, failuresAll_eq_nil_iff children]
  | failed _ _ _ => by simp [failures, hasFailure]

theorem failuresAll_eq_nil_iff : (trees : List Tree) → failuresAll trees = [] ↔ anyFailure trees = false
  | [] => by simp [failuresAll, anyFailure]
  | t :: rest => by
      rw [failuresAll, anyFailure, List.append_eq_nil_iff, Bool.or_eq_false_iff, failures_eq_nil_iff t,
        failuresAll_eq_nil_iff rest]

end

end Tree

theorem ofCycle_of_texts {cycle : List Scalar} (texts : ∀ n ∈ cycle, n.isText = true) :
    Failure.ofCycle (cycle.map .scalar) = .resolve (.circular (cycle.map .scalar)) := by
  refine if_pos (List.all_eq_true.mpr fun v member => ?_)
  obtain ⟨n, listed, rfl⟩ := List.mem_map.mp member
  have text := texts n listed
  cases n with
  | str s => rfl
  | _ => cases text

namespace Lookup

variable {lookup : Lookup} {path : List Scalar} {deps walk : Fields} {pins : Table Scalar String}
  {s s' : Progress} {name n : Scalar} {requirement : Json} {package : Package} {version : String}

/-! ### Acts without pins -/

theorem step_ne_keep : lookup.step path [] name requirement ≠ .keep := by
  intro kept
  obtain ⟨_, _, _, _, pinned, _⟩ := step_eq_keep kept
  cases pinned

theorem step_of_unpinned (unpinned : pins.get? name = none) :
    lookup.step path pins name requirement = lookup.step path [] name requirement := by
  rw [step, step, unpinned, Table.get?_nil]

/-- But for a conflict, a dependency is refused for what it is and not for the pins. -/
theorem step_of_refuse {error : ResolveError} (different : ∀ n v q, error ≠ .conflict n v q)
    (hs : lookup.step path pins name requirement = .refuse (.resolve error)) :
    lookup.step path [] name requirement = .refuse (.resolve error) := by
  rcases step_eq_refuse hs with ⟨met, told⟩ | ⟨fresh, m, unread, told⟩ | ⟨_, _, version, _, _, _, told⟩
  · rw [step, if_pos met, told]
  · rw [step, if_neg (ne_true_of_eq_false fresh), unread, told]
  · cases told
    exact absurd rfl (different name version requirement)

/-- Below a path of texts every failure at a text can be told. -/
theorem resolve_of_refuse {failure : Failure} (texts : ∀ n ∈ path ++ [name], n.isText = true)
    (hs : lookup.step path pins name requirement = .refuse failure) :
    ∃ error, failure = .resolve error := by
  rcases step_eq_refuse hs with ⟨_, told⟩ | ⟨_, m, _, told⟩ | ⟨_, _, version, _, _, _, told⟩
  · exact ⟨_, told.trans (ofCycle_of_texts texts)⟩
  · exact ⟨_, told⟩
  · exact ⟨_, told⟩

theorem resolve_of_miss {failure : Failure}
    (hs : lookup.step path pins name requirement = .miss failure) : ∃ error, failure = .resolve error := by
  obtain ⟨_, _, _, _, ⟨_, told⟩ | ⟨_, _, _, told⟩⟩ := step_eq_miss hs
  · exact ⟨_, told⟩
  · exact ⟨_, told⟩

/-! ### There is a tree -/

/-- Trees grow from all dependencies below a path. With each package that is entered the path has one more
of the packages that exist, so it cannot be longer than there are packages. -/
theorem exists_grows {root : Scalar} {bound : Nat} (few : lookup.AtMost bound)
    (texts : ∀ d q, lookup.Edge root d q → d.isText = true) (left : Nat) (simple : lookup.Simple path)
    (room : bound < path.length + left) (textual : ∀ n ∈ path, n.isText = true)
    (edges : ∀ e ∈ deps, lookup.Edge root e.1 e.2) (looked : List Json) :
    ∃ looked' trees, lookup.Grows path deps looked looked' trees := by
  induction left generalizing path deps looked with
  | zero => exact absurd (few path simple) (by omega)
  | succ left ihLeft =>
      induction deps generalizing looked with
      | nil => exact ⟨looked, [], .done⟩
      | cons dependency rest ih =>
          obtain ⟨name, requirement⟩ := dependency
          have edge := edges _ List.mem_cons_self
          have later := ih fun e member => edges e (List.mem_cons_of_mem _ member)
          have longer : ∀ n ∈ path ++ [name], n.isText = true := by
            intro n member
            rcases List.mem_append.mp member with before | last
            · exact textual n before
            · rw [List.mem_singleton.mp last]
              exact texts name requirement edge
          cases hs : lookup.step path [] name requirement with
          | keep => exact absurd hs step_ne_keep
          | refuse failure =>
              obtain ⟨error, rfl⟩ := resolve_of_refuse longer hs
              obtain ⟨looked', trees, grown⟩ := later looked
              exact ⟨looked', _, .refuse hs grown⟩
          | miss failure =>
              obtain ⟨error, rfl⟩ := resolve_of_miss hs
              obtain ⟨looked', trees, grown⟩ := later (looked ++ [.scalar name])
              exact ⟨looked', _, .miss hs grown⟩
          | enter package version =>
              obtain ⟨fresh, _, found, _⟩ := step_eq_enter hs
              have roomBelow : bound < (path ++ [name]).length + left := by
                rw [List.length_append, List.length_singleton]
                omega
              obtain ⟨mid, children, grownBelow⟩ :=
                ihLeft (simple.snoc (Option.isSome_of_eq_some found) fresh) roomBelow longer
                  (fun e member => edge.next e.1 e.2 (declares_of_mem found member)) (looked ++ [.scalar name])
              obtain ⟨looked', trees, grown⟩ := later mid
              exact ⟨looked', _, .enter hs grownBelow grown⟩

/-- The trees that grow from some dependencies are determined by them. -/
theorem Grows.unique {looked looked' other : List Json} {trees others : List Tree}
    (g : lookup.Grows path deps looked looked' trees) (h : lookup.Grows path deps looked other others) :
    looked' = other ∧ trees = others := by
  induction g generalizing other others with
  | done => cases h; exact ⟨rfl, rfl⟩
  | refuse hs _ ih =>
      cases h with
      | refuse hs' later =>
          cases hs.symm.trans hs'
          obtain ⟨rfl, rfl⟩ := ih later
          exact ⟨rfl, rfl⟩
      | miss hs' => cases hs.symm.trans hs'
      | enter hs' => cases hs.symm.trans hs'
  | miss hs _ ih =>
      cases h with
      | refuse hs' => cases hs.symm.trans hs'
      | miss hs' later =>
          cases hs.symm.trans hs'
          obtain ⟨rfl, rfl⟩ := ih later
          exact ⟨rfl, rfl⟩
      | enter hs' => cases hs.symm.trans hs'
  | enter hs _ _ ihBelow ihRest =>
      cases h with
      | refuse hs' => cases hs.symm.trans hs'
      | miss hs' => cases hs.symm.trans hs'
      | enter hs' below later =>
          cases hs.symm.trans hs'
          obtain ⟨rfl, rfl⟩ := ihBelow below
          obtain ⟨rfl, rfl⟩ := ihRest later
          exact ⟨rfl, rfl⟩

/-! ### What is pinned is settled -/

/-- A dependency of an unfolding which can be shown below a path without a failure. -/
structure Clear (lookup : Lookup) (path : List Scalar) (name : Scalar) (requirement : Json) : Prop where
  off : path.any (· == name) = false
  chosen : (lookup.choice name requirement).isSome = true

/-- What is pinned off a path has a version of its package, and an unfolding that is pinned too and can be
shown below the path. -/
structure Settled (lookup : Lookup) (path : List Scalar) (pins : Table Scalar String) : Prop where
  stored : ∀ n version, pins.get? n = some version → path.any (· == n) = false → lookup.Stores n version
  unfolded : ∀ n, pins.has n = true → path.any (· == n) = false →
    ∃ package below, lookup n = some package ∧ lookup.Unfolds package.dependencies below ∧
      ∀ e ∈ below, pins.has e.1 = true ∧ lookup.Clear path e.1 e.2

theorem Stores.congr (hl : lookup.ByName) {a b : Scalar} (same : (a == b) = true)
    (h : lookup.Stores a version) : lookup.Stores b version := by
  obtain ⟨package, found, stored⟩ := h
  exact ⟨package, (hl.same same).symm.trans found, stored⟩

theorem Clear.of_snoc (h : lookup.Clear (path ++ [name]) n requirement) : lookup.Clear path n requirement := by
  have off := h.off
  rw [any_snoc, Bool.or_eq_false_iff] at off
  exact ⟨off.1, h.chosen⟩

theorem apart_of_pinned (unpinned : pins.get? name = none) (pinned : pins.has n = true) :
    (name == n) = false := by
  refine eq_false_of_ne_true fun same => ?_
  rw [← Table.has_congr same, Table.has, unpinned] at pinned
  cases pinned

/-- A dependency that its pin meets off the path has an unfolding, and is itself clear. -/
theorem Settled.shows (settled : lookup.Settled path pins) (off : path.any (· == name) = false)
    (met : Met pins name requirement) :
    lookup.Clear path name requirement ∧ ∃ package below, lookup name = some package ∧
      lookup.Unfolds package.dependencies below ∧
      ∀ e ∈ below, pins.has e.1 = true ∧ lookup.Clear path e.1 e.2 := by
  obtain ⟨_, selected, _, chosen, _⟩ := choice_of_met met fun version pinned =>
    settled.stored name version pinned off
  exact ⟨⟨off, Option.isSome_of_eq_some chosen⟩, settled.unfolded name met.has off⟩

theorem Settled.ofRoot (root name : Scalar) (package : Package) :
    lookup.Settled [name] (Progress.ofRoot root name package).pins := by
  have none_off (n : Scalar) (pinned : (Progress.ofRoot root name package).pins.has n = true)
      (off : [name].any (· == n) = false) : False := by
    rw [any_singleton] at off
    rw [Progress.has_ofRoot, off] at pinned
    cases pinned
  exact ⟨fun n _ pinned off => (none_off n (Table.has_of_get? pinned) off).elim,
    fun n pinned off => (none_off n pinned off).elim⟩

/-- What was settled stays so when a package is entered, for it was not pinned and so is not met again. -/
theorem Settled.of_enter (settled : lookup.Settled path s.pins)
    (hs : lookup.step path s.pins name requirement = .enter package version) :
    lookup.Settled (path ++ [name]) ((s.look name).pin name version).pins := by
  obtain ⟨_, unpinned, _, _⟩ := step_eq_enter hs
  refine ⟨fun n selected pinned off => ?_, fun n pinned off => ?_⟩
  · rw [any_snoc, Bool.or_eq_false_iff] at off
    rw [pins_of_enter hs, Table.get?_append, Table.get?_cons, if_neg (ne_true_of_eq_false off.2),
      Table.get?_nil, Option.or_none] at pinned
    exact settled.stored n selected pinned off.1
  · obtain ⟨before, away⟩ := before_of_enter hs pinned off
    obtain ⟨package', below, found, u, clear⟩ := settled.unfolded n before away
    refine ⟨package', below, found, u, fun e member => ?_⟩
    obtain ⟨held, shown⟩ := clear e member
    refine ⟨by rw [has_of_enter hs, held, Bool.true_or], ?_, shown.chosen⟩
    rw [any_snoc, shown.off, apart_of_pinned unpinned held, Bool.or_false]

/-- A package whose dependencies are all met is settled when the walk comes off it. -/
theorem Settled.of_below (hl : lookup.ByName) (settled : lookup.Settled (path ++ [name]) s'.pins)
    (hs : lookup.step path s.pins name requirement = .enter package version)
    (w : lookup.Walk (path ++ [name]) package.dependencies ((s.look name).pin name version) s' none) :
    lookup.Settled path s'.pins := by
  obtain ⟨_, _, found, chosen⟩ := step_eq_enter hs
  have longer (n : Scalar) (off : path.any (· == n) = false) (other : ¬ (name == n) = true) :
      (path ++ [name]).any (· == n) = false := by
    rw [any_snoc, off, Bool.false_or]
    exact eq_false_of_ne_true other
  refine ⟨fun n selected pinned off => ?_, fun n pinned off => ?_⟩
  · by_cases same : (name == n) = true
    · rw [← Table.get?_congr same, w.get?_mono (get?_of_enter hs)] at pinned
      cases pinned
      exact (choice_eq_some chosen).1.congr hl same
    · exact settled.stored n selected pinned (longer n off same)
  · by_cases same : (name == n) = true
    · obtain ⟨below, u, clear⟩ := exists_unfolds_of_each
        (P := fun e => s'.pins.has e.1 = true ∧ lookup.Clear path e.1 e.2) fun e member => by
          obtain ⟨away, met⟩ := w.met rfl e member
          obtain ⟨shown, package', below, found', u, clear⟩ := settled.shows away met
          exact ⟨⟨met.has, shown.of_snoc⟩, package', below, found', u,
            fun x inside => ⟨(clear x inside).1, (clear x inside).2.of_snoc⟩⟩
      exact ⟨package, below, (hl.same same).symm.trans found, u, clear⟩
    · obtain ⟨package', below, found', u, clear⟩ := settled.unfolded n pinned (longer n off same)
      exact ⟨package', below, found', u, fun e member => ⟨(clear e member).1, (clear e member).2.of_snoc⟩⟩

theorem Walk.settled (hl : lookup.ByName) {out : Option Failure}
    (w : lookup.Walk path deps s s' out) (ends : out = none) (settled : lookup.Settled path s.pins) :
    lookup.Settled path s'.pins := by
  induction w with
  | done => exact settled
  | keep _ _ ih => exact ih ends settled
  | refuse _ => cases ends
  | miss _ => cases ends
  | sink _ _ _ => cases ends
  | enter hs below _ ihBelow ihRest =>
      exact ihRest ends ((ihBelow rfl (settled.of_enter hs)).of_below hl hs below)

/-! ### The first failure -/

/-- A tree shows a clear unfolding without a failure. -/
theorem Grows.failures_of_clear (hl : lookup.ByName) {looked looked' : List Json} {trees : List Tree}
    (g : lookup.Grows path deps looked looked' trees) (u : lookup.Unfolds deps walk)
    (clear : ∀ e ∈ walk, lookup.Clear path e.1 e.2) : Tree.failuresAll trees = [] := by
  obtain ⟨_, others, _, grown, sound, _, _⟩ :=
    u.grows hl (fun e member => (clear e member).chosen) (fun e member => (clear e member).off) looked
  obtain ⟨_, rfl⟩ := g.unique grown
  exact (Tree.failuresAll_eq_nil_iff trees).mpr sound

/-- Where a dependency is settled, a tree has its first failure among the dependencies after it. -/
theorem Settled.failures_of_grows (hl : lookup.ByName) (settled : lookup.Settled path pins)
    (off : path.any (· == name) = false) (met : Met pins name requirement)
    {looked looked' : List Json} {trees : List Tree}
    (g : lookup.Grows path ((name, requirement) :: deps) looked looked' trees) :
    ∃ mid others, lookup.Grows path deps mid looked' others ∧
      Tree.failuresAll trees = Tree.failuresAll others := by
  obtain ⟨shown, package, below, found, u, clear⟩ := settled.shows off met
  obtain ⟨version, chosen⟩ := Option.isSome_iff_exists.mp shown.chosen
  have entered := step_eq_enter_of_choice off (Table.get?_nil name) found chosen
  cases g with
  | refuse hs => cases hs.symm.trans entered
  | miss hs => cases hs.symm.trans entered
  | @enter _ _ _ _ _ mid _ _ _ children others hs grownBelow grown =>
      cases hs.symm.trans entered
      have longer : ∀ e ∈ below, lookup.Clear (path ++ [name]) e.1 e.2 := by
        intro e member
        refine ⟨?_, (clear e member).2.chosen⟩
        rw [any_snoc, (clear e member).2.off, u.apart hl found e member, Bool.or_false]
      refine ⟨mid, others, grown, ?_⟩
      rw [Tree.failuresAll, Tree.failures, grownBelow.failures_of_clear hl u longer, List.nil_append]

/-- What stops a walk, if it is no conflict, is the first failure of the trees of the same dependencies. -/
theorem Walk.first_failure (hl : lookup.ByName) {error : ResolveError}
    (different : ∀ n v q, error ≠ .conflict n v q)
    (w : lookup.Walk path deps s s' (some (.resolve error))) (settled : lookup.Settled path s.pins)
    {looked looked' : List Json} {trees : List Tree}
    (g : lookup.Grows path deps looked looked' trees) : (Tree.failuresAll trees).head? = some error := by
  generalize ends : some (Failure.resolve error) = out at w
  induction w generalizing looked looked' trees with
  | done => cases ends
  | keep hs _ ih =>
      obtain ⟨fresh, met⟩ := step_eq_keep hs
      obtain ⟨_, _, grown, same⟩ := settled.failures_of_grows hl fresh met g
      rw [same]
      exact ih settled grown ends
  | refuse hs =>
      cases ends
      have refused := step_of_refuse different hs
      cases g with
      | refuse hs' => cases hs'.symm.trans refused; rfl
      | miss hs' => cases hs'.symm.trans refused
      | enter hs' => cases hs'.symm.trans refused
  | miss hs =>
      cases ends
      obtain ⟨_, _, _, unpinned, _⟩ := step_eq_miss hs
      rw [step_of_unpinned unpinned] at hs
      cases g with
      | refuse hs' => cases hs'.symm.trans hs
      | miss hs' => cases hs'.symm.trans hs; rfl
      | enter hs' => cases hs'.symm.trans hs
  | sink hs _ ih =>
      obtain ⟨_, unpinned, _, _⟩ := step_eq_enter hs
      have entered := hs
      rw [step_of_unpinned unpinned] at hs
      cases g with
      | refuse hs' => cases hs'.symm.trans hs
      | miss hs' => cases hs'.symm.trans hs
      | enter hs' below _ =>
          cases hs'.symm.trans hs
          rw [Tree.failuresAll, Tree.failures, List.head?_append, ih (settled.of_enter entered) below ends,
            Option.some_or]
  | @enter path name requirement _ s mid _ package version _ hs below _ _ ihRest =>
      obtain ⟨fresh, _, _, chosen⟩ := step_eq_enter hs
      have settledBelow := (below.settled hl rfl (settled.of_enter hs)).of_below hl hs below
      have met : Met mid.pins name requirement :=
        met_of_choice chosen (below.get?_mono (get?_of_enter hs))
      obtain ⟨_, _, grown, same⟩ := settledBelow.failures_of_grows hl fresh met g
      rw [same]
      exact ihRest settledBelow grown ends

end Lookup

variable {σ : Type} {src : Source σ} {state : σ} {lookup : Lookup}

/-- Trees and flat resolution agree on the first failure. Where a resolution from an existing package fails,
and not for a version conflict, the tree of the package is grown, and its first failure in preorder is the
same error. Names must be texts: the error of a cycle joins them, and cannot be told of other names. -/
theorem dependencyTree_first_failure (hc : src.Constant state lookup) (finite : src.Finite state lookup)
    {root : String} {package : Package} (found : lookup root = some package)
    (texts : ∀ d q, lookup.Edge root d q → d.isText = true) {error : ResolveError}
    (different : ∀ name existing requirement, error ≠ .conflict name existing requirement)
    (h : (resolve src (.str root) state).2 = .error (.resolve error)) :
    ∃ t, (dependencyTree src (.str root) state).2 = .ok t ∧ t.failures.head? = some error := by
  obtain ⟨name, named, same, ⟨_, infinite⟩ | ⟨s, out, w, answer, _⟩⟩ := hc.resolve_found found
  · exact absurd finite infinite
  cases Scalar.eq_str_of_same same
  have stopped : out = some (.resolve error) := by
    rw [answer] at h
    cases out with
    | none => cases h
    | some failure => cases h; rfl
  obtain ⟨looked, children, grown⟩ := Lookup.exists_grows finite texts (src.depthBound state)
    (Lookup.simple_singleton found) (by rw [Source.depthBound, List.length_singleton]; omega)
    (fun n member => by rw [List.mem_singleton.mp member]; rfl)
    (fun e member => ⟨.str root, .start BEq.rfl, Lookup.declares_of_mem found member⟩) [.str root]
  refine ⟨_, (hc.dependencyTree_of_grows finite found named grown).1, ?_⟩
  rw [Tree.failures]
  exact (stopped ▸ w).first_failure hc.toByName different (.ofRoot root root package) grown

/-- A package whose tree shows a shared dependency again before a cycle is closed, and has one more failure
after it. -/
def tangle : Table Scalar Package :=
  [Package.ofTexts "app" [("left", "1.0.0"), ("right", "1.0.0")] ["1.0.0"],
    Package.ofTexts "left" [("base", "< 2.0.0")] ["1.0.0"],
    Package.ofTexts "right" [("base", "1.0.0"), ("left", ">= 1.0.0"), ("tool", "1.0.0")] ["1.0.0"],
    Package.ofTexts "base" [] ["2.1.0", "1.0.0"],
    Package.ofTexts "tool" [("right", "1.0.0"), ("gone", "1.0.0")] ["1.0.0"]]

theorem tangle_texts (d : Scalar) (q : Json) (edge : (Lookup.ofTable tangle).Edge "app" d q) : d.isText = true := by
  obtain ⟨p, _, package, found, member⟩ := edge
  obtain ⟨k, listed, _⟩ := Table.mem_of_get? found
  have all : ∀ e ∈ tangle, ∀ x ∈ e.2.dependencies, x.1.isText = true := by decide
  exact all (k, package) listed (d, q) member

theorem dependencyTree_first_failure_tangle :
    (resolve Source.ofTable (.str "app") tangle).2 =
        .error (.resolve (.circular [.str "app", .str "right", .str "tool", .str "right"])) ∧
      ∃ t, (dependencyTree Source.ofTable (.str "app") tangle).2 = .ok t ∧
        t.failures.head? = some (.circular [.str "app", .str "right", .str "tool", .str "right"]) := by
  have failed : (resolve Source.ofTable (.str "app") tangle).2 =
      .error (.resolve (.circular [.str "app", .str "right", .str "tool", .str "right"])) := rfl
  exact ⟨failed, dependencyTree_first_failure (Source.ofTable_constant (by decide))
    (Source.ofTable_finite tangle) rfl tangle_texts (fun _ _ _ => ResolveError.noConfusion) failed⟩

end ExprRegistry
