import ExprRegistry.Proofs.Resolve.Dependency
import ExprRegistry.Resolve.Flat
import Mathlib.Data.List.Basic

/-!
Sources that do not change while they are asked. For such a source the next act of a walk depends only on
its path, the pins and the dependency: `Lookup.step` says which of four acts it is. The log and the state
of the source have no say.
-/

namespace ExprRegistry

variable {σ : Type}

def Source.after (src : Source σ) (state : σ) (history : List Scalar) : σ :=
  history.foldl (fun s name => (src.find (.scalar name) s).state) state

/-- A source that answers as one lookup does, whatever was looked up before. A source that changes only
where nothing can be seen of it, by caching say, is constant too. -/
structure Source.Constant (src : Source σ) (state : σ) (lookup : Lookup) : Prop
    extends lookup.ByName where
  answers : ∀ history name,
    (src.find (.scalar name) (src.after state history)).answer = .ok (lookup name)

/-- A source that has no more packages than its bound says. -/
def Source.Finite (src : Source σ) (state : σ) (lookup : Lookup) : Prop :=
  lookup.AtMost (src.bound state)

/-- What a walk has done so far that can be seen in its answer. -/
structure Progress where
  looked : List Json
  pins : Table Scalar String

namespace Progress

def look (s : Progress) (name : Scalar) : Progress := { s with looked := s.looked ++ [.scalar name] }

def pin (s : Progress) (name : Scalar) (version : String) : Progress :=
  { s with pins := s.pins.put name version }

end Progress

def Run.progress (run : Run σ) : Progress := ⟨run.lookups, run.pins⟩

/-- The answer of a source that is constant is that of its lookup, and the source stays constant. -/
theorem Source.Constant.fetch {src : Source σ} {lookup : Lookup} {run : Run σ}
    (hc : src.Constant run.source lookup) (name : Scalar) :
    ∃ run' : Run σ, run.fetch src (.scalar name) = (run', .ok (lookup name)) ∧
      src.Constant run'.source lookup ∧ run'.progress = run.progress.look name := by
  refine ⟨_, Prod.ext rfl (hc.answers [] name), ⟨hc.toByName, ?_⟩, rfl⟩
  intro history
  exact hc.answers (name :: history)

def Lookup.ofTable (packages : Table Scalar Package) : Lookup := fun name => packages.get? name

theorem Source.ofTable_after (packages : Table Scalar Package) (history : List Scalar) :
    Source.ofTable.after packages history = packages := by
  induction history with
  | nil => rfl
  | cons name history ih => exact ih

theorem Source.ofTable_constant {packages : Table Scalar Package}
    (h : ∀ e ∈ packages, e.2.name = .scalar e.1) :
    Source.ofTable.Constant packages (Lookup.ofTable packages) := by
  refine ⟨⟨fun same => Table.get?_congr same packages, ?_⟩, ?_⟩
  · intro n p found
    obtain ⟨k, member, same⟩ := Table.mem_of_get? found
    rw [h (k, p) member]
    exact same
  · intro history name
    rw [Source.ofTable_after]
    rfl

theorem Lookup.Simple.length_filter_le_one {lookup : Lookup} {names : List Scalar}
    (simple : lookup.Simple names) (n : Scalar) : (names.filter fun m => n == m).length ≤ 1 := by
  have distinct := simple.distinct.filter fun m => n == m
  cases hf : names.filter fun m => n == m with
  | nil => exact Nat.zero_le 1
  | cons a more =>
      cases more with
      | nil => exact Nat.le_refl 1
      | cons b more =>
          have ha : a ∈ names.filter fun m => n == m := hf ▸ List.mem_cons_self
          have hb : b ∈ names.filter fun m => n == m :=
            hf ▸ List.mem_cons_of_mem a List.mem_cons_self
          rw [hf] at distinct
          have apart := List.rel_of_pairwise_cons distinct List.mem_cons_self
          rw [BEq.trans (BEq.symm (List.mem_filter.mp ha).2) (List.mem_filter.mp hb).2] at apart
          cases apart

theorem Lookup.ofTable_atMost (packages : Table Scalar Package) :
    (Lookup.ofTable packages).AtMost packages.length := by
  intro names simple
  induction packages generalizing names with
  | nil =>
      cases names with
      | nil => exact Nat.le_refl 0
      | cons n names => exact absurd (simple.found n List.mem_cons_self) Bool.false_ne_true
  | cons e packages ih =>
      have rest : (Lookup.ofTable packages).Simple (names.filter fun n => !(e.1 == n)) := by
        refine ⟨simple.distinct.filter _, ?_⟩
        intro n member
        obtain ⟨member, different⟩ := List.mem_filter.mp member
        have found := simple.found n member
        rwa [Lookup.ofTable, Table.get?_cons, if_neg (by simpa using different)] at found
      have once := simple.length_filter_le_one e.1
      have split := List.length_eq_length_filter_add (l := names) fun n => e.1 == n
      have bounded := ih _ rest
      rw [List.length_cons]
      omega

theorem Source.ofTable_finite (packages : Table Scalar Package) :
    Source.ofTable.Finite packages (Lookup.ofTable packages) := Lookup.ofTable_atMost packages

namespace Lookup

/-- The next act of a walk: a dependency is pinned already and kept, or refused, or looked up in vain, or
pinned and entered. -/
inductive Step where
  | keep
  | refuse (failure : Failure)
  | miss (failure : Failure)
  | enter (package : Package) (version : String)

variable (lookup : Lookup)

/-- The next act at a dependency. A walk that pins nothing has the acts of a walk without pins. -/
def step (path : List Scalar) (pins : Table Scalar String) (name : Scalar) (requirement : Json) :
    Step :=
  if path.any (· == name) then .refuse (.ofCycle ((path ++ [name]).map .scalar))
  else
    match Requirement.ofJson requirement with
    | .error m => .refuse (.resolve (.malformed m))
    | .ok req =>
      match pins.get? name with
      | some version =>
        if req.admitsJson (.str version) then .keep
        else .refuse (.resolve (.conflict name version requirement))
      | none =>
        match lookup name with
        | none => .miss (.resolve (.notFound name))
        | some package =>
          match Version.latestMeeting? Version.ofText? req package.versions with
          | none => .miss (.resolve (.noMatch name requirement))
          | some version => .enter package version

variable {lookup} {path : List Scalar} {pins : Table Scalar String} {name : Scalar}
  {requirement : Json}

theorem step_eq_keep (h : lookup.step path pins name requirement = .keep) :
    path.any (· == name) = false ∧ Met pins name requirement := by
  rw [step] at h
  split at h
  case isTrue => cases h
  case isFalse fresh =>
    refine ⟨eq_false_of_ne_true fresh, ?_⟩
    split at h
    case h_1 => cases h
    case h_2 req read =>
      split at h
      case h_1 version pinned =>
        split at h
        case isTrue admitted => exact ⟨req, version, read, pinned, admitted⟩
        case isFalse => cases h
      case h_2 => split at h <;> (try split at h) <;> cases h

theorem step_eq_enter {package : Package} {version : String}
    (h : lookup.step path pins name requirement = .enter package version) :
    path.any (· == name) = false ∧ pins.get? name = none ∧ lookup name = some package ∧
      lookup.choice name requirement = some version := by
  rw [step] at h
  split at h
  case isTrue => cases h
  case isFalse fresh =>
    split at h
    case h_1 => cases h
    case h_2 req read =>
      split at h
      case h_1 => split at h <;> cases h
      case h_2 unpinned =>
        split at h
        case h_1 => cases h
        case h_2 found =>
          split at h
          case h_1 => cases h
          case h_2 selected =>
            cases h
            exact ⟨eq_false_of_ne_true fresh, unpinned, found,
              choice_eq_some_iff.mpr ⟨package, req, found, read, selected⟩⟩

theorem step_eq_enter_of_choice {package : Package} {version : String}
    (fresh : path.any (· == name) = false) (unpinned : pins.get? name = none)
    (found : lookup name = some package) (chosen : lookup.choice name requirement = some version) :
    lookup.step path pins name requirement = .enter package version := by
  obtain ⟨package', req, found', read, selected⟩ := choice_eq_some_iff.mp chosen
  cases found.symm.trans found'
  simp only [step, fresh, read, unpinned, found, selected, Bool.false_eq_true, if_false]

theorem step_eq_refuse {failure : Failure} (h : lookup.step path pins name requirement = .refuse failure) :
    (path.any (· == name) = true ∧ failure = .ofCycle ((path ++ [name]).map .scalar)) ∨
    (path.any (· == name) = false ∧ ∃ m, Requirement.ofJson requirement = .error m ∧
      failure = .resolve (.malformed m)) ∨
    (path.any (· == name) = false ∧ ∃ req version, Requirement.ofJson requirement = .ok req ∧
      pins.get? name = some version ∧ req.admitsJson (.str version) = false ∧
      failure = .resolve (.conflict name version requirement)) := by
  rw [step] at h
  split at h
  case isTrue met =>
    cases h
    exact .inl ⟨met, rfl⟩
  case isFalse fresh =>
    have fresh := eq_false_of_ne_true fresh
    split at h
    case h_1 m read =>
      cases h
      exact .inr (.inl ⟨fresh, m, read, rfl⟩)
    case h_2 req read =>
      split at h
      case h_1 version pinned =>
        split at h
        case isTrue => cases h
        case isFalse refused =>
          cases h
          exact .inr (.inr ⟨fresh, req, version, read, pinned, eq_false_of_ne_true refused, rfl⟩)
      case h_2 => split at h <;> (try split at h) <;> cases h

theorem step_eq_miss {failure : Failure} (h : lookup.step path pins name requirement = .miss failure) :
    path.any (· == name) = false ∧ ∃ req, Requirement.ofJson requirement = .ok req ∧
      pins.get? name = none ∧
      ((lookup name = none ∧ failure = .resolve (.notFound name)) ∨
        ∃ package, lookup name = some package ∧
          Version.latestMeeting? Version.ofText? req package.versions = none ∧
          failure = .resolve (.noMatch name requirement)) := by
  rw [step] at h
  split at h
  case isTrue => cases h
  case isFalse fresh =>
    refine ⟨eq_false_of_ne_true fresh, ?_⟩
    split at h
    case h_1 => cases h
    case h_2 req read =>
      split at h
      case h_1 => split at h <;> cases h
      case h_2 unpinned =>
        refine ⟨req, read, unpinned, ?_⟩
        split at h
        case h_1 missing =>
          cases h
          exact .inl ⟨missing, rfl⟩
        case h_2 package found =>
          split at h
          case h_1 unmatched =>
            cases h
            exact .inr ⟨package, found, unmatched, rfl⟩
          case h_2 => cases h

end Lookup

end ExprRegistry
