import ExprRegistry.Proofs.Json.Regular
import ExprRegistry.Proofs.Resolve.Outcome
import ExprRegistry.Proofs.Store.Export

/-!
Results of resolutions as documents. Where the dependencies of packages are whole texts, the pins of a resolution have
different whole texts for names, and the document of a tree is regular. Main statements: `pins_of_resolve` and
`regular_of_dependencyTree`.
-/

namespace ExprRegistry

/-- Requirements by name: names and requirements are whole texts. -/
def Fields.AreStrings (entries : Fields) : Prop := ∀ e ∈ entries, e.1.isString = true ∧ e.2.isString = true

/-- Packages whose dependencies are whole texts, the requirements as well as the names that they are for. -/
def Lookup.Worded (lookup : Lookup) : Prop :=
  ∀ n package, lookup n = some package → Fields.AreStrings package.dependencies

/-- Pins as they can be written: the names are different whole texts. -/
structure PlainPins (pins : Table Scalar String) : Prop where
  names : ∀ e ∈ pins, e.1.isString = true
  distinct : pins.Distinct

theorem PlainPins.regular {pins : Table Scalar String} (h : PlainPins pins) :
    Json.Regular (.obj (pins.map fun (name, version) => (name, .str version))) :=
  .obj (List.forall_mem_map.mpr h.names) (List.pairwise_map.mpr h.distinct)
    (List.forall_mem_map.mpr fun _ _ => .scalar rfl)

namespace Lookup

variable {lookup : Lookup} {path : List Scalar} {deps : Fields} {s s' : Progress} {out : Option Failure}
  {looked looked' : List Json} {trees : List Tree}

theorem Worded.textual (worded : lookup.Worded) : lookup.Textual :=
  fun found e member => (Scalar.isString_iff.mp (worded _ _ found e member).1).1

theorem Walk.pinned_names (w : lookup.Walk path deps s s' out) (worded : lookup.Worded)
    (declared : ∀ e ∈ deps, e.1.isString = true) (before : ∀ e ∈ s.pins, e.1.isString = true) :
    ∀ e ∈ s'.pins, e.1.isString = true := by
  induction w with
  | done => exact before
  | keep _ _ ih => exact ih (List.forall_mem_cons.mp declared).2 before
  | refuse _ => exact before
  | miss _ => exact before
  | sink hs _ ih =>
      obtain ⟨_, _, found, _⟩ := step_eq_enter hs
      refine ih (fun e member => (worded _ _ found e member).1) ?_
      rw [pins_of_enter hs]
      exact List.forall_mem_append.mpr
        ⟨before, List.forall_mem_singleton.mpr (declared _ List.mem_cons_self)⟩
  | enter hs _ _ ihBelow ihRest =>
      obtain ⟨first, rest⟩ := List.forall_mem_cons.mp declared
      obtain ⟨_, _, found, _⟩ := step_eq_enter hs
      refine ihRest rest (ihBelow (fun e member => (worded _ _ found e member).1) ?_)
      rw [pins_of_enter hs]
      exact List.forall_mem_append.mpr ⟨before, List.forall_mem_singleton.mpr first⟩

end Lookup

/-! ### Trees -/

namespace Tree

theorem toJsonAll_eq_map (trees : List Tree) : toJsonAll trees = trees.map toJson := by
  induction trees with
  | nil => rfl
  | cons t trees ih => rw [toJsonAll, ih, List.map_cons]

theorem regular_node {name requirement : Scalar} (whole : name.isWhole = true) (readable : requirement.isWhole = true)
    (version : String) {children : List Tree} (all : ∀ t ∈ children, t.toJson.Regular) :
    (node (.scalar name) version (.scalar requirement) children).toJson.Regular := by
  have below : (Json.arr (toJsonAll children)).Regular := by
    rw [toJsonAll_eq_map]
    exact .arr (List.forall_mem_map.mpr all)
  rw [toJson]
  split
  · exact .cons "name" rfl (.scalar whole) (.cons "version" rfl (.scalar rfl) (.cons "dependencies" rfl below .empty))
  · exact .cons "name" rfl (.scalar whole) (.cons "version" rfl (.scalar rfl)
      (.cons "version_req" rfl (.scalar readable) (.cons "dependencies" rfl below .empty)))

theorem regular_failed {name requirement : Scalar} (whole : name.isWhole = true)
    (readable : requirement.isWhole = true) (error : ResolveError) :
    (failed name (.scalar requirement) error).toJson.Regular :=
  .cons "name" rfl (.scalar whole) (.cons "version_req" rfl (.scalar readable)
    (.cons "error" rfl (.scalar rfl) (.cons "error_kind" rfl (.scalar rfl) .empty)))

/-- The document of a node has no field for an error. -/
theorem noError_node (name : Json) (version : String) (requirement : Json) (children : List Tree) :
    ∃ fields, (node name version requirement children).toJson = .obj fields ∧
      Json.hasField fields "error" = false := by
  refine ⟨_, rfl, ?_⟩
  split <;> rfl

end Tree

theorem Lookup.Grows.regular {lookup : Lookup} {path : List Scalar} {deps : Fields} {looked looked' : List Json}
    {trees : List Tree} (h : lookup.Grows path deps looked looked' trees) (hl : lookup.ByName)
    (worded : lookup.Worded) (declared : Fields.AreStrings deps) : ∀ t ∈ trees, t.toJson.Regular := by
  induction h with
  | done => nofun
  | refuse _ _ ih =>
      obtain ⟨⟨named, first⟩, rest⟩ := List.forall_mem_cons.mp declared
      obtain ⟨text, rfl⟩ := Json.exists_of_isString first
      have whole := (Scalar.isString_iff.mp named).2
      exact List.forall_mem_cons.mpr ⟨Tree.regular_failed whole rfl _, ih rest⟩
  | miss _ _ ih =>
      obtain ⟨⟨named, first⟩, rest⟩ := List.forall_mem_cons.mp declared
      obtain ⟨text, rfl⟩ := Json.exists_of_isString first
      have whole := (Scalar.isString_iff.mp named).2
      exact List.forall_mem_cons.mpr ⟨Tree.regular_failed whole rfl _, ih rest⟩
  | enter hs _ _ ihBelow ihRest =>
      obtain ⟨⟨first, required⟩, rest⟩ := List.forall_mem_cons.mp declared
      obtain ⟨text, rfl⟩ := Json.exists_of_isString required
      obtain ⟨asked, rfl⟩ := Scalar.exists_of_isString first
      obtain ⟨_, _, found, _⟩ := Lookup.step_eq_enter hs
      obtain ⟨name, named, same⟩ := hl.name_eq found
      cases Scalar.eq_str_of_same same
      rw [named]
      exact List.forall_mem_cons.mpr ⟨Tree.regular_node rfl rfl _ (ihBelow (worded _ _ found)), ihRest rest⟩

/-! ### Results -/

namespace Source.Constant

variable {σ : Type} {src : Source σ} {state : σ} {lookup : Lookup}

theorem pins_of_resolve (hc : src.Constant state lookup) (worded : lookup.Worded) {root : String}
    {pins : Table Scalar String} (h : (resolve src (.str root) state).2 = .ok pins) : PlainPins pins := by
  obtain ⟨package, name, s, found, named, same, rfl, walk⟩ := hc.walk_of_resolve_ok h
  cases Scalar.eq_str_of_same same
  exact ⟨walk.pinned_names worded (fun e member => (worded _ _ found e member).1) (List.forall_mem_singleton.mpr rfl),
    walk.distinct (List.pairwise_singleton _ _)⟩

theorem pins_of_resolveRequirements (hc : src.Constant state lookup) (worded : lookup.Worded) {requirements : Fields}
    (declared : ∀ e ∈ requirements, e.1.isString = true) {pins : Table Scalar String}
    (h : (resolveRequirements src requirements state).2 = .ok pins) : PlainPins pins := by
  obtain ⟨s, rfl, walk⟩ := hc.walk_of_resolveRequirements_ok h
  exact ⟨walk.pinned_names worded declared nofun, walk.distinct .nil⟩

theorem regular_of_dependencyTree (hc : src.Constant state lookup) (worded : lookup.Worded) {root : String} {t : Tree}
    (h : (dependencyTree src (.str root) state).2 = .ok t) :
    t.toJson.Regular ∧ ∃ fields, t.toJson = .obj fields ∧ Json.hasField fields "error" = false := by
  obtain ⟨package, name, children, found, _, same, rfl, grown⟩ := hc.grows_of_dependencyTree h
  cases Scalar.eq_str_of_same same
  exact ⟨Tree.regular_node rfl rfl _ (grown.regular hc.toByName worded (worded _ _ found)), Tree.noError_node _ _ _ _⟩

end Source.Constant

end ExprRegistry
