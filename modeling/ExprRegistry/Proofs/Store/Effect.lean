import ExprRegistry.Proofs.Data.Table
import ExprRegistry.Proofs.Store.Text

/-!
What operations on a store do. `Effect` has one constructor for each way in which an operation succeeds,
with all that it asks for, the later store and the answer. Main statements: `effect_of_perform` and
`perform_of_effect`, by which these are all the ways to succeed, and `perform_of_error`, by which an operation
that fails leaves the store as it is.
-/

namespace ExprRegistry

/-- The releases of a package that have another version. -/
def Package.releasesBut (version : Json) (p : Package) : List Release :=
  p.releases.filter fun r => !decide (Json.text r.version = version)

namespace Store

/-- How an operation that succeeds takes a store to a later one, and what it answers. -/
inductive Effect (store : Store) : Operation → Store → Answer → Prop where
  | create {text : String} {dependencies title description : Json} {entries : Fields}
      (named : IsPackageName text) (new : Table.get? (.str text) store = none)
      (read : dependencies.entriesIfGiven = .ok entries) :
      Effect store (.create (.str text) dependencies title description)
        (store ++ [(.str text, ⟨.str text, entries, [], title, description⟩)])
        (.package ⟨.str text, entries, [], title, description⟩)
  | setDependencies {k : Scalar} {p : Package} {dependencies : Json} {entries : Fields}
      (found : Table.get? k store = some p) (read : dependencies.entries = .ok entries) :
      Effect store (.setDependencies (.scalar k) dependencies)
        (Table.modify k (fun p => { p with dependencies := entries }) store) .done
  | addVersion {k : Scalar} {p : Package} {text checksum : String} {data : Json}
      (found : Table.get? k store = some p) (written : IsVersionText text)
      (valid : ∃ e, Expr.decode data = .ok e) (digest : data.checksum = .ok checksum)
      (new : p.release? (.str text) = none) :
      Effect store (.addVersion (.scalar k) (.str text) data)
        (Table.modify k (fun p => { p with releases := p.releases ++ [⟨text, data, .str checksum⟩] }) store)
        (.release ⟨text, data, .str checksum⟩)
  | deleteVersion {k : Scalar} {p : Package} {version : Json} (found : Table.get? k store = some p) :
      Effect store (.deleteVersion (.scalar k) version)
        (Table.modify k (fun q => { q with releases := p.releasesBut version }) store)
        (.removed ((p.releasesBut version).length != p.releases.length))
  | deletePackage {k : Scalar} :
      Effect store (.deletePackage (.scalar k)) (Table.erase k store) (.removed (Table.has k store))
  /-- Any value can be looked for in an empty store. -/
  | deleteNothing {name : Json} (empty : store = []) (noKey : ∀ k, name ≠ .scalar k) :
      Effect store (.deletePackage name) store (.removed false)

variable {store after : Store} {name version data dependencies title description : Json} {k : Scalar}
  {p : Package} {text : String}

theorem require_eq_ok_iff :
    store.require name = .ok (k, p) ↔ name = .scalar k ∧ Table.get? k store = some p := by
  cases name with
  | scalar l =>
      rw [require]
      split
      case h_1 q found =>
        constructor
        · rintro ⟨⟩
          exact ⟨rfl, found⟩
        · rintro ⟨⟨⟩, same⟩
          rw [found] at same
          cases same
          rfl
      case h_2 absent =>
        refine ⟨nofun, ?_⟩
        rintro ⟨⟨⟩, found⟩
        rw [absent] at found
        cases found
  | arr items => exact ⟨nofun, nofun⟩
  | obj fields => exact ⟨nofun, nofun⟩

theorem newName_eq_ok_iff : newName name = .ok text ↔ name = .str text ∧ IsPackageName text := by
  rw [newName.eq_def]
  split
  case h_1 s =>
    split
    case isTrue valid =>
      constructor
      · rintro ⟨⟩
        exact ⟨rfl, isPackageNameText_iff.mp valid⟩
      · rintro ⟨⟨⟩, -⟩
        rfl
    case isFalse invalid =>
      refine ⟨nofun, ?_⟩
      rintro ⟨⟨⟩, named⟩
      exact absurd (isPackageNameText_iff.mpr named) invalid
  case h_2 t notWhole =>
    refine ⟨nofun, ?_⟩
    rintro ⟨⟨⟩, -⟩
    exact absurd rfl (notWhole text)
  case h_3 noText _ =>
    constructor
    · intro h
      split at h <;> cases h
    · rintro ⟨rfl, -⟩
      exact absurd rfl (noText text)

/-! ### An operation has its effect or changes nothing -/

theorem create_cases (store : Store) (name dependencies title description : Json) :
    (∃ e, store.create name dependencies title description = (store, .error e)) ∨
      ∃ after p, store.create name dependencies title description = (after, .ok p) ∧
        Effect store (.create name dependencies title description) after (.package p) := by
  rw [Store.create]
  split
  case h_1 e _ => exact .inl ⟨e, rfl⟩
  case h_2 text accepted =>
    obtain ⟨rfl, named⟩ := newName_eq_ok_iff.mp accepted
    split
    case isTrue => exact .inl ⟨_, rfl⟩
    case isFalse absent =>
      have new : Table.get? (.str text) store = none :=
        Table.get?_eq_none_iff.mpr (eq_false_of_ne_true absent)
      split
      case h_1 => exact .inl ⟨_, rfl⟩
      case h_2 entries read =>
        refine .inr ⟨_, _, rfl, ?_⟩
        rw [Table.put_of_get?_eq_none new]
        exact .create named new read

theorem setDependencies_cases (store : Store) (name dependencies : Json) :
    (∃ e, store.setDependencies name dependencies = (store, .error e)) ∨
      ∃ after done, store.setDependencies name dependencies = (after, .ok done) ∧
        Effect store (.setDependencies name dependencies) after .done := by
  rw [Store.setDependencies]
  split
  case h_1 => exact .inl ⟨_, rfl⟩
  case h_2 entries read =>
    split
    case h_1 e _ => exact .inl ⟨e, rfl⟩
    case h_2 k p required =>
      obtain ⟨rfl, found⟩ := require_eq_ok_iff.mp required
      exact .inr ⟨_, _, rfl, .setDependencies found read⟩

theorem addVersion_cases (store : Store) (name version data : Json) :
    (∃ e, store.addVersion name version data = (store, .error e)) ∨
      ∃ after r, store.addVersion name version data = (after, .ok r) ∧
        Effect store (.addVersion name version data) after (.release r) := by
  rw [Store.addVersion.eq_def]
  split
  case h_2 => exact .inl ⟨_, rfl⟩
  case h_1 text =>
    split
    case isTrue => exact .inl ⟨_, rfl⟩
    case isFalse written =>
      rw [Bool.not_eq_true, Bool.not_eq_false'] at written
      split
      case h_1 => exact .inl ⟨_, rfl⟩
      case h_2 e valid =>
        split
        case h_1 => exact .inl ⟨_, rfl⟩
        case h_2 checksum digest =>
          split
          case h_1 e _ => exact .inl ⟨e, rfl⟩
          case h_2 k p required =>
            obtain ⟨rfl, found⟩ := require_eq_ok_iff.mp required
            split
            case isTrue => exact .inl ⟨_, rfl⟩
            case isFalse new =>
              refine .inr ⟨_, _, rfl, ?_⟩
              exact .addVersion found (isVersionText_iff.mp written) ⟨e, valid⟩ digest
                (Option.not_isSome_iff_eq_none.mp new)

theorem deleteVersion_cases (store : Store) (name version : Json) :
    (∃ e, store.deleteVersion name version = (store, .error e)) ∨
      ∃ after any, store.deleteVersion name version = (after, .ok any) ∧
        Effect store (.deleteVersion name version) after (.removed any) := by
  rw [Store.deleteVersion]
  split
  case h_1 e _ => exact .inl ⟨e, rfl⟩
  case h_2 k p required =>
    obtain ⟨rfl, found⟩ := require_eq_ok_iff.mp required
    exact .inr ⟨_, _, rfl, .deleteVersion found⟩

theorem deletePackage_cases (store : Store) (name : Json) :
    (∃ e, store.deletePackage name = (store, .error e)) ∨
      ∃ after any, store.deletePackage name = (after, .ok any) ∧
        Effect store (.deletePackage name) after (.removed any) := by
  rw [Store.deletePackage.eq_def]
  split
  case h_1 k => exact .inr ⟨_, _, rfl, .deletePackage⟩
  case h_2 noKey =>
    split
    case isTrue empty => exact .inr ⟨_, _, rfl, .deleteNothing (List.isEmpty_iff.mp empty) noKey⟩
    case isFalse => exact .inl ⟨_, rfl⟩

theorem ofEnd_answer_eq_error_iff {α : Type} {ended : Store × Except StoreError α} {log : α → List Record}
    {answer : α → Answer} {e : StoreError} :
    (Performed.ofEnd ended log answer).answer = .error e ↔ ended.2 = .error e := by
  obtain ⟨after, failure | a⟩ := ended
  · simp
  · simp

/-- What is told about the end of an operation keeps its store. -/
theorem ofEnd_cases {α : Type} {op : Operation} {ended : Store × Except StoreError α} (log : α → List Record)
    {answer : α → Answer} (h : (∃ e, ended = (store, .error e)) ∨
      ∃ after a, ended = (after, .ok a) ∧ Effect store op after (answer a)) :
    let done := Performed.ofEnd ended log answer
    (∃ e, done.answer = .error e ∧ done.store = store) ∨
      ∃ given, done.answer = .ok given ∧ Effect store op done.store given := by
  rcases h with ⟨e, rfl⟩ | ⟨after, a, rfl, effect⟩
  · exact .inl ⟨e, rfl, rfl⟩
  · exact .inr ⟨answer a, rfl, effect⟩

/-- An operation has its effect, or it fails and the store is as it was. -/
theorem perform_cases (store : Store) (op : Operation) :
    (∃ e, (store.perform op).answer = .error e ∧ (store.perform op).store = store) ∨
      ∃ answer, (store.perform op).answer = .ok answer ∧ Effect store op (store.perform op).store answer := by
  cases op with
  | create name dependencies title description =>
      exact ofEnd_cases _ (create_cases store name dependencies title description)
  | setDependencies name dependencies => exact ofEnd_cases _ (setDependencies_cases store name dependencies)
  | addVersion name version data => exact ofEnd_cases _ (addVersion_cases store name version data)
  | deleteVersion name version => exact ofEnd_cases _ (deleteVersion_cases store name version)
  | deletePackage name => exact ofEnd_cases _ (deletePackage_cases store name)

theorem perform_of_error {op : Operation} {e : StoreError} (h : (store.perform op).answer = .error e) :
    (store.perform op).store = store := by
  rcases perform_cases store op with ⟨_, _, same⟩ | ⟨answer, succeeded, _⟩
  · exact same
  · rw [h] at succeeded
    cases succeeded

/-- What the effects of some operations keep of a store is kept by a run of them, with failing ones among them. -/
theorem performAll_of_effects {P : Store → Prop} {operations : List Operation} (start : P store)
    (step : ∀ op ∈ operations, ∀ {before after answer}, P before → Effect before op after answer → P after) :
    P (store.performAll operations) := by
  induction operations generalizing store with
  | nil => exact start
  | cons op operations ih =>
      have first : P (store.perform op).store := by
        rcases perform_cases store op with ⟨_, _, same⟩ | ⟨_, _, effect⟩
        · rwa [same]
        · exact step op List.mem_cons_self start effect
      exact ih first fun later member => step later (List.mem_cons_of_mem op member)

theorem effect_of_perform {op : Operation} {answer : Answer} (h : (store.perform op).answer = .ok answer) :
    Effect store op (store.perform op).store answer := by
  rcases perform_cases store op with ⟨e, failed, _⟩ | ⟨other, succeeded, effect⟩
  · rw [h] at failed
    cases failed
  · rw [h] at succeeded
    cases succeeded
    exact effect

/-- What an effect asks for is enough: the operation succeeds with it. -/
theorem perform_of_effect {op : Operation} {answer : Answer} (effect : Effect store op after answer) :
    (store.perform op).store = after ∧ (store.perform op).answer = .ok answer := by
  cases effect with
  | create named new read =>
      have accepted := newName_eq_ok_iff.mpr ⟨rfl, named⟩
      simp [perform, Store.create, accepted, Table.has, new, read, Table.put_of_get?_eq_none]
  | setDependencies found read =>
      have required := require_eq_ok_iff.mpr ⟨rfl, found⟩
      simp [perform, Store.setDependencies, read, required]
  | addVersion found written valid digest new =>
      have required := require_eq_ok_iff.mpr ⟨rfl, found⟩
      obtain ⟨e, valid⟩ := valid
      simp [perform, Store.addVersion, isVersionText_iff.mpr written, valid, digest, required, new]
  | deleteVersion found =>
      have required := require_eq_ok_iff.mpr ⟨rfl, found⟩
      simp [perform, Store.deleteVersion, required, Package.releasesBut]
  | deletePackage => exact ⟨rfl, rfl⟩
  | @deleteNothing name empty noKey =>
      cases name with
      | scalar k => exact absurd rfl (noKey k)
      | arr items => simp [perform, Store.deletePackage, empty]
      | obj fields => simp [perform, Store.deletePackage, empty]

end Store

end ExprRegistry
