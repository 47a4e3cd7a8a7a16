import ExprRegistry.Proofs.Resolve.Soundness
import ExprRegistry.Proofs.Version.Asking
import Mathlib.Data.List.Chain

/-!
What is wrong where a resolution fails. The path of a walk is a trail: different packages, each declared by
the one before it. A walk fails at a dependency that the last package of a trail declares, and the pins at
that place all come from other dependencies. Main statement: `resolve_error_explained`.
-/

namespace ExprRegistry

namespace Lookup

variable (lookup : Lookup)

/-- A chain of packages with different names from a root, each declared as a dependency by the one before
it. -/
structure Trail (root : Scalar) (trail : List Scalar) : Prop where
  starts : ∃ first, trail.head? = some first ∧ (first == root) = true
  simple : lookup.Simple trail
  declared : trail.IsChain fun a b => ∃ requirement, lookup.Declares a b requirement

/-- Whether an error tells what is wrong with a dependency that the last package of a trail declares. The
pin of a conflict is what another dependency on the same name selects by itself. -/
def Explains (root : Scalar) (trail : List Scalar) (name : Scalar) (requirement : Json) :
    ResolveError → Prop
  | .rootNotFound _ => False
  | .circular cycle => trail.any (· == name) = true ∧ cycle = (trail ++ [name]).map .scalar
  | .malformed m => Requirement.ofJson requirement = .error m ∧ m.text = requirement.asText
  | .notFound n => n = name ∧ lookup name = none
  | .noMatch n q => n = name ∧ q = requirement ∧ ∃ package req, lookup name = some package ∧
      Requirement.ofJson requirement = .ok req ∧
      ∀ version ∈ package.versions, req.admitsJson (.str version) = false
  | .conflict n existing q => n = name ∧ q = requirement ∧
      (∃ p d other, lookup.Reachable (fun n => (n == root) = true) p ∧ lookup.Declares p d other ∧
        (d == name) = true ∧ other ≠ requirement ∧ lookup.choice name other = some existing) ∧
      ∃ req, Requirement.ofJson requirement = .ok req ∧ req.admitsJson (.str existing) = false

variable {lookup} {root name p : Scalar} {path trail : List Scalar} {deps : Fields} {s s' : Progress}
  {requirement : Json} {failure : Failure}

theorem Trail.snoc (h : lookup.Trail root trail) (last : trail.getLast? = some p)
    (declared : lookup.Declares p name requirement) (found : (lookup name).isSome = true)
    (fresh : trail.any (· == name) = false) : lookup.Trail root (trail ++ [name]) := by
  obtain ⟨first, head, same⟩ := h.starts
  refine ⟨⟨first, ?_, same⟩, h.simple.snoc found fresh, ?_⟩
  · rw [List.head?_append, head, Option.some_or]
  · refine List.isChain_append.mpr ⟨h.declared, List.isChain_singleton name, ?_⟩
    intro x hx y hy
    cases Option.mem_unique hx last
    cases hy
    exact ⟨requirement, declared⟩

/-- Every pin but that of the root is selected by a dependency within reach of the root. -/
def Originates (lookup : Lookup) (root : Scalar) (pins : Table Scalar String) : Prop :=
  ∀ n v, pins.get? n = some v → (n == root) = true ∨
    ∃ d q, lookup.Edge root d q ∧ (d == n) = true ∧ lookup.choice d q = some v

theorem Originates.of_enter {package : Package} {version : String}
    (origins : lookup.Originates root s.pins)
    (hs : lookup.step path s.pins name requirement = .enter package version)
    (edge : lookup.Edge root name requirement) :
    lookup.Originates root ((s.look name).pin name version).pins := by
  intro n v pinned
  rcases origin_of_enter hs edge n v pinned with before | known
  · exact origins n v before
  · exact .inr known

theorem Originates.of_walk {out : Option Failure} (origins : lookup.Originates root s.pins)
    (w : lookup.Walk path deps s s' out) (edges : ∀ e ∈ deps, lookup.Edge root e.1 e.2) :
    lookup.Originates root s'.pins := by
  intro n v pinned
  rcases w.origin (lookup.Edge root) (fun _ _ edge => edge.next) edges n v pinned with before | known
  · exact origins n v before
  · exact .inr known

/-- A walk that fails has come to a dependency at the end of a trail and stopped there. -/
theorem Walk.stops (w : lookup.Walk path deps s s' (some failure)) (trail : lookup.Trail root path)
    (last : path.getLast? = some p) (reach : lookup.Reachable (fun n => (n == root) = true) p)
    (declared : ∀ e ∈ deps, lookup.Declares p e.1 e.2) (origins : lookup.Originates root s.pins) :
    ∃ trail p name requirement pins, lookup.Trail root trail ∧ trail.getLast? = some p ∧
      lookup.Declares p name requirement ∧ lookup.Originates root pins ∧
      (lookup.step trail pins name requirement = .refuse failure ∨
        lookup.step trail pins name requirement = .miss failure) := by
  generalize ends : some failure = out at w
  induction w generalizing p with
  | done => cases ends
  | keep _ _ ih =>
      exact ih trail last reach (fun e member => declared e (List.mem_cons_of_mem _ member)) origins ends
  | @refuse path name requirement _ s _ hs =>
      cases ends
      exact ⟨path, p, name, requirement, s.pins, trail, last, declared _ List.mem_cons_self, origins,
        .inl hs⟩
  | @miss path name requirement _ s _ hs =>
      cases ends
      exact ⟨path, p, name, requirement, s.pins, trail, last, declared _ List.mem_cons_self, origins,
        .inr hs⟩
  | @sink path name requirement rest s _ package version _ hs below ih =>
      have here := declared _ List.mem_cons_self
      have edge : lookup.Edge root name requirement := ⟨p, reach, here⟩
      obtain ⟨fresh, _, found, _⟩ := step_eq_enter hs
      exact ih (trail.snoc last here (Option.isSome_of_eq_some found) fresh) List.getLast?_concat
        (.step reach here.dependsOn) (fun e member => declares_of_mem found member)
        (origins.of_enter hs edge) ends
  | @enter path name requirement rest s mid _ package version _ hs below after _ ihRest =>
      have edge : lookup.Edge root name requirement := ⟨p, reach, declared _ List.mem_cons_self⟩
      have originsBelow := (origins.of_enter hs edge).of_walk below
        (edges_of_enter (fun _ _ edge => edge.next) hs edge)
      exact ihRest trail last reach (fun e member => declared e (List.mem_cons_of_mem _ member))
        originsBelow ends

theorem explains_of_refuse {pins : Table Scalar String} {e : ResolveError} (hl : lookup.ByName)
    (trail' : lookup.Trail root trail) (origins : lookup.Originates root pins)
    (hs : lookup.step trail pins name requirement = .refuse (.resolve e)) :
    lookup.Explains root trail name requirement e := by
  rcases step_eq_refuse hs with ⟨met, told⟩ | ⟨_, m, unread, told⟩ | ⟨fresh, req, version, read, pinned, refused, told⟩
  · rw [Failure.ofCycle] at told
    split at told
    · cases told
      exact ⟨met, rfl⟩
    · cases told
  · cases told
    exact ⟨unread, Requirement.ofJson_error unread⟩
  · cases told
    refine ⟨rfl, rfl, ?_, req, read, refused⟩
    rcases origins name version pinned with same | ⟨d, other, ⟨p, reach, declared⟩, same, chosen⟩
    -- the root is on every trail, so its name would have closed a cycle
    · obtain ⟨first, head, first_same⟩ := trail'.starts
      have off := List.any_eq_false.mp fresh first (List.mem_of_head? head)
      exact absurd (BEq.trans first_same (BEq.symm same)) off
    · rw [choice_congr hl same] at chosen
      refine ⟨p, d, other, reach, declared, same, ?_, chosen⟩
      rintro rfl
      obtain ⟨_, req', read', admitted⟩ := choice_eq_some chosen
      cases read.symm.trans read'
      rw [refused] at admitted
      cases admitted

theorem explains_of_miss {pins : Table Scalar String} {e : ResolveError}
    (hs : lookup.step trail pins name requirement = .miss (.resolve e)) :
    lookup.Explains root trail name requirement e := by
  obtain ⟨_, req, read, _, ⟨missing, told⟩ | ⟨package, found, unmatched, told⟩⟩ := step_eq_miss hs
  · cases told
    exact ⟨rfl, missing⟩
  · cases told
    refine ⟨rfl, rfl, package, req, found, read, fun version stored => ?_⟩
    refine eq_false_of_ne_true fun admitted => ?_
    obtain ⟨v, written, meets⟩ := Requirement.admitsJson_str_iff.mp admitted
    rw [Version.latestMeeting?_eq_none_iff.mp unmatched version stored v written] at meets
    cases meets

end Lookup

variable {σ : Type} {src : Source σ} {state : σ} {lookup : Lookup}

/-- An error of a resolution from an existing root tells what is wrong with a dependency that is really
declared: by the last of a chain of packages from the root, whose names are all different. -/
theorem resolve_error_explained (hc : src.Constant state lookup) {root : Scalar} {package : Package}
    (found : lookup root = some package) {e : ResolveError}
    (h : (resolve src (.scalar root) state).2 = .error (.resolve e)) :
    ∃ trail p name requirement, lookup.Trail root trail ∧ trail.getLast? = some p ∧
      lookup.Declares p name requirement ∧ lookup.Explains root trail name requirement e := by
  obtain ⟨name, _, same, ⟨deep, _⟩ | ⟨s, out, walk, answer, _⟩⟩ := hc.resolve_found found
  · rw [deep] at h
    cases h
  rw [answer] at h
  cases out with
  | none => cases h
  | some failure =>
      cases h
      have found' : lookup name = some package := (hc.same same).trans found
      have trail : lookup.Trail root [name] :=
        ⟨⟨name, rfl, same⟩, Lookup.simple_singleton found', List.isChain_singleton name⟩
      have origins : lookup.Originates root (Progress.ofRoot root name package).pins := by
        intro n v pinned
        have hk := (Progress.has_ofRoot root name package n).symm.trans (Table.has_of_get? pinned)
        exact .inl (BEq.trans (BEq.symm hk) same)
      obtain ⟨trail, p, d, q, pins, ht, last, declared, origins, hs | hs⟩ :=
        walk.stops trail rfl (.start same) (fun e member => Lookup.declares_of_mem found' member) origins
      · exact ⟨trail, p, d, q, ht, last, declared,
          Lookup.explains_of_refuse hc.toByName ht origins hs⟩
      · exact ⟨trail, p, d, q, ht, last, declared, Lookup.explains_of_miss hs⟩

/-- Two packages that cannot agree on a dependency. -/
def disagreement : Table Scalar Package :=
  [Package.ofTexts "app" [("left", "1.0.0"), ("right", "1.0.0")] ["1.0.0"],
    Package.ofTexts "left" [("base", "< 2.0.0")] ["1.0.0"],
    Package.ofTexts "right" [("base", ">= 2.0.0")] ["1.0.0"],
    Package.ofTexts "base" [] ["2.1.0", "1.9.0", "1.0.0"]]

theorem resolve_error_explained_disagreement :
    (resolve Source.ofTable (.str "app") disagreement).2 =
        .error (.resolve (.conflict "base" "1.9.0" (.str ">= 2.0.0"))) ∧
      ∃ trail p name requirement, (Lookup.ofTable disagreement).Trail "app" trail ∧
        trail.getLast? = some p ∧ (Lookup.ofTable disagreement).Declares p name requirement ∧
        (Lookup.ofTable disagreement).Explains "app" trail name requirement
          (.conflict "base" "1.9.0" (.str ">= 2.0.0")) := by
  have failed : (resolve Source.ofTable (.str "app") disagreement).2 =
      .error (.resolve (.conflict "base" "1.9.0" (.str ">= 2.0.0"))) := rfl
  exact ⟨failed, resolve_error_explained (Source.ofTable_constant (by decide)) rfl failed⟩

end ExprRegistry
