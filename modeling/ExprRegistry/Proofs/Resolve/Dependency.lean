import ExprRegistry.Proofs.Data.Table
import ExprRegistry.Proofs.Version.Select
import ExprRegistry.Package.Basic
import Mathlib.Logic.Relation

/-!
The graph of dependencies behind a source. Names are compared as keys, so a package is the same vertex
under every spelling of its name. `Reachable` is the closure of some first names under dependencies,
`Grounded` holds of a name from which no chain of dependencies goes on forever, and `choice` is the version
that one requirement selects by itself.
-/

namespace ExprRegistry

/-- The package that a name has, if there is one. -/
abbrev Lookup := Scalar → Option Package

/-- One text of a version does not come after another one in precedence. Both must write a version. -/
def Version.NotAfter (s t : String) : Prop :=
  ∃ v w, Version.ofText? s = some v ∧ Version.ofText? t = some w ∧ (v.precedence w).isLE

theorem Version.notAfter_refl {s : String} {v : Version} (h : Version.ofText? s = some v) :
    Version.NotAfter s s := ⟨v, v, h, h, Std.ReflCmp.isLE_rfl⟩

/-- A requirement on a name can be read, and the pin of the name admits it. -/
def Met (pins : Table Scalar String) (name : Scalar) (requirement : Json) : Prop :=
  ∃ req version, Requirement.ofJson requirement = .ok req ∧ pins.get? name = some version ∧
    req.admitsJson (.str version) = true

theorem Met.append {pins : Table Scalar String} {name : Scalar} {requirement : Json}
    (h : Met pins name requirement) (more : Table Scalar String) :
    Met (pins ++ more) name requirement := by
  obtain ⟨req, version, read, pinned, admitted⟩ := h
  exact ⟨req, version, read, Table.get?_append_of_some pinned more, admitted⟩

theorem Met.has {pins : Table Scalar String} {name : Scalar} {requirement : Json}
    (h : Met pins name requirement) : pins.has name = true := by
  obtain ⟨_, _, _, pinned, _⟩ := h
  exact Table.has_of_get? pinned

theorem Met.congr {pins others : Table Scalar String} {name : Scalar} {requirement : Json}
    (h : Met pins name requirement) (same : pins.get? name = others.get? name) :
    Met others name requirement := by
  obtain ⟨req, version, read, pinned, admitted⟩ := h
  exact ⟨req, version, read, same ▸ pinned, admitted⟩

namespace Lookup

/-- The same names have the same answer, and what is found under a name has this name. -/
structure ByName (lookup : Lookup) : Prop where
  same : ∀ {a b : Scalar}, (a == b) = true → lookup a = lookup b
  named : ∀ {n : Scalar} {p : Package}, lookup n = some p → p.name.names n = true

variable (lookup : Lookup)

/-- Different names that all have packages. -/
structure Simple (names : List Scalar) : Prop where
  distinct : names.Pairwise fun a b => (a == b) = false
  found : ∀ n ∈ names, (lookup n).isSome = true

def AtMost (bound : Nat) : Prop := ∀ names, lookup.Simple names → names.length ≤ bound

def Declares (p d : Scalar) (requirement : Json) : Prop :=
  ∃ package, lookup p = some package ∧ (d, requirement) ∈ package.dependencies

/-- A package declares some dependency on a name, however the name is spelled there. -/
def DependsOn (p n : Scalar) : Prop := ∃ d requirement, lookup.Declares p d requirement ∧ (d == n) = true

/-- The names that can be reached from some first names. -/
inductive Reachable (first : Scalar → Prop) : Scalar → Prop
  | start {n} : first n → Reachable first n
  | step {p n} : Reachable first p → lookup.DependsOn p n → Reachable first n

/-- The dependencies that packages within reach of a root declare. -/
def Edge (root d : Scalar) (requirement : Json) : Prop :=
  ∃ p, Reachable lookup (fun n => (n == root) = true) p ∧ lookup.Declares p d requirement

/-- Every chain of dependencies from a name ends. -/
def Grounded (n : Scalar) : Prop := Acc (fun d p => lookup.DependsOn p d) n

/-- The version that a requirement selects by itself, whatever is pinned. -/
def choice (name : Scalar) (requirement : Json) : Option String :=
  match lookup name, Requirement.ofJson requirement with
  | some package, .ok req => Version.latestMeeting? Version.ofText? req package.versions
  | _, _ => none

variable {lookup} {a b p d n : Scalar} {requirement : Json}

theorem any_singleton (d n : Scalar) : [d].any (· == n) = (d == n) := by
  rw [List.any_cons, List.any_nil, Bool.or_false]

theorem any_snoc (path : List Scalar) (d n : Scalar) :
    (path ++ [d]).any (· == n) = (path.any (· == n) || d == n) := by
  rw [List.any_append, any_singleton]

theorem ByName.name_eq (h : lookup.ByName) {package : Package} (found : lookup n = some package) :
    ∃ name, package.name = .scalar name ∧ (name == n) = true := by
  have named := h.named found
  cases hn : package.name with
  | scalar name => exact ⟨name, rfl, by rwa [hn] at named⟩
  | arr items => rw [hn] at named; cases named
  | obj fields => rw [hn] at named; cases named

theorem simple_singleton {package : Package} (found : lookup n = some package) : lookup.Simple [n] := by
  refine ⟨List.pairwise_singleton _ n, fun m member => ?_⟩
  rw [List.mem_singleton.mp member, found, Option.isSome_some]

theorem Simple.snoc {path : List Scalar} (h : lookup.Simple path) (found : (lookup n).isSome = true)
    (fresh : path.any (· == n) = false) : lookup.Simple (path ++ [n]) := by
  refine ⟨List.pairwise_append.mpr ⟨h.distinct, List.pairwise_singleton _ n, ?_⟩, ?_⟩
  · intro x member y last
    rw [List.mem_singleton.mp last]
    exact eq_false_of_ne_true (List.any_eq_false.mp fresh x member)
  · intro x member
    rcases List.mem_append.mp member with earlier | last
    · exact h.found x earlier
    · rw [List.mem_singleton.mp last]; exact found

theorem declares_of_mem {package : Package} (found : lookup p = some package)
    (member : (d, requirement) ∈ package.dependencies) : lookup.Declares p d requirement :=
  ⟨package, found, member⟩

theorem Declares.dependsOn (h : lookup.Declares p d requirement) : lookup.DependsOn p d :=
  ⟨d, requirement, h, BEq.rfl⟩

theorem Declares.congr (hl : lookup.ByName) (same : (a == b) = true)
    (h : lookup.Declares a d requirement) : lookup.Declares b d requirement := by
  obtain ⟨package, found, member⟩ := h
  exact ⟨package, (hl.same same).symm.trans found, member⟩

theorem DependsOn.congr_left (hl : lookup.ByName) (same : (a == b) = true)
    (h : lookup.DependsOn a n) : lookup.DependsOn b n := by
  obtain ⟨d, requirement, declared, target⟩ := h
  exact ⟨d, requirement, declared.congr hl same, target⟩

theorem DependsOn.congr_right (same : (a == b) = true) (h : lookup.DependsOn p a) :
    lookup.DependsOn p b := by
  obtain ⟨d, requirement, declared, target⟩ := h
  exact ⟨d, requirement, declared, BEq.trans target same⟩

open Relation in
theorem transGen_congr_left (hl : lookup.ByName) (same : (a == b) = true)
    (h : TransGen lookup.DependsOn a n) : TransGen lookup.DependsOn b n := by
  obtain ⟨c, first, after⟩ := TransGen.head'_iff.mp h
  exact TransGen.head' (first.congr_left hl same) after

open Relation in
theorem transGen_congr_right (same : (a == b) = true) (h : TransGen lookup.DependsOn p a) :
    TransGen lookup.DependsOn p b := by
  obtain ⟨c, before, last⟩ := TransGen.tail'_iff.mp h
  exact TransGen.tail' before (last.congr_right same)

theorem Reachable.congr {first : Scalar → Prop} (hf : ∀ a b, (a == b) = true → first a → first b)
    (same : (a == b) = true) (h : lookup.Reachable first a) : lookup.Reachable first b := by
  cases h with
  | start h => exact .start (hf a b same h)
  | step before last => exact .step before (last.congr_right same)

theorem reachable_iff (hl : lookup.ByName) :
    lookup.Reachable (fun n => (n == d) = true) n ↔
      (n == d) = true ∨ Relation.TransGen lookup.DependsOn d n := by
  constructor
  · intro h
    induction h with
    | start same => exact .inl same
    | step _ edge ih =>
        rcases ih with same | reached
        · exact .inr (.single (edge.congr_left hl same))
        · exact .inr (reached.tail edge)
  · rintro (same | reached)
    · exact .start same
    · induction reached with
      | single edge => exact .step (.start BEq.rfl) edge
      | tail _ edge ih => exact .step ih edge

theorem Edge.next {root : Scalar} (h : lookup.Edge root d requirement) (d' : Scalar) (q : Json)
    (declared : lookup.Declares d d' q) : lookup.Edge root d' q := by
  obtain ⟨p, reach, before⟩ := h
  exact ⟨d, .step reach before.dependsOn, declared⟩

theorem Grounded.congr (hl : lookup.ByName) (same : (a == b) = true) (h : lookup.Grounded a) :
    lookup.Grounded b := by
  refine Acc.intro b fun d edge => h.inv ?_
  exact DependsOn.congr_left hl (BEq.symm same) edge

theorem grounded_of_deps (hl : lookup.ByName) {package : Package} (found : lookup n = some package)
    (h : ∀ e ∈ package.dependencies, lookup.Grounded e.1) : lookup.Grounded n := by
  refine Acc.intro n fun m edge => ?_
  obtain ⟨d, q, ⟨package', found', member⟩, same⟩ := edge
  cases found.symm.trans found'
  exact (h (d, q) member).congr hl same

theorem Grounded.of_transGen (h : lookup.Grounded n) (reached : Relation.TransGen lookup.DependsOn n p) :
    lookup.Grounded p := h.inv_of_transGen (Relation.transGen_swap.mpr reached)

theorem Grounded.not_transGen (h : lookup.Grounded n) : ¬ Relation.TransGen lookup.DependsOn n n := by
  have closed := Acc.transGen h
  induction closed with
  | intro x _ ih =>
      intro cycle
      exact ih x (Relation.transGen_swap.mpr cycle) (h.of_transGen cycle) cycle

theorem choice_eq_some_iff {version : String} :
    lookup.choice n requirement = some version ↔
      ∃ package req, lookup n = some package ∧ Requirement.ofJson requirement = .ok req ∧
        Version.latestMeeting? Version.ofText? req package.versions = some version := by
  rw [choice]
  split
  case h_1 package req found read => simp [found, read]
  case h_2 none_left =>
    constructor
    · intro h; cases h
    · rintro ⟨package, req, found, read, _⟩
      exact (none_left package req found read).elim

/-- A stored version that a requirement admits bounds what the requirement selects from below. -/
theorem choice_of_admits {package : Package} {req : Requirement} {version : String}
    (found : lookup n = some package) (stored : version ∈ package.versions)
    (read : Requirement.ofJson requirement = .ok req) (admitted : req.admitsJson (.str version) = true) :
    ∃ selected, lookup.choice n requirement = some selected ∧ Version.NotAfter version selected := by
  obtain ⟨v, written, meets⟩ := Requirement.admitsJson_str_iff.mp admitted
  cases hs : Version.latestMeeting? Version.ofText? req package.versions with
  | none =>
      rw [Version.latestMeeting?_eq_none_iff.mp hs version stored v written] at meets
      cases meets
  | some selected =>
      obtain ⟨_, w, written', _, highest⟩ := Version.latestMeeting?_eq_some hs
      exact ⟨selected, choice_eq_some_iff.mpr ⟨package, req, found, read, hs⟩, v, w, written, written',
        highest version stored v written meets⟩

theorem choice_congr (hl : lookup.ByName) (same : (a == b) = true) (requirement : Json) :
    lookup.choice a requirement = lookup.choice b requirement := by
  rw [choice, choice, hl.same same]

end Lookup

end ExprRegistry
