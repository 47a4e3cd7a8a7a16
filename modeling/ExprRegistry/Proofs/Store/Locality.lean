import ExprRegistry.Proofs.Store.Effect

/-!
What operations on a store leave alone. An operation names one package, and whatever else is stored stays as
it is; of the named package itself only that part changes which the operation is about. Main statement:
`perform_local`, for every store and every operation with any arguments.
-/

namespace ExprRegistry

/-- The name of the package that an operation is about. It can be any value. -/
def Operation.name : Operation → Json
  | create name _ _ _ => name
  | setDependencies name _ => name
  | addVersion name _ _ => name
  | deleteVersion name _ => name
  | deletePackage name => name

namespace Store

/-- What is stored beside the package of a name, in its order. A value that is no key names no package. -/
def beside (name : Json) (store : Store) : Store :=
  match name with
  | .scalar k => Table.erase k store
  | _ => store

/-- What an operation that succeeds makes of the package that it is about, and what it answers. -/
inductive Change : Operation → Option Package → Option Package → Answer → Prop where
  | create {name dependencies title description : Json} {entries : Fields}
      (read : dependencies.entriesIfGiven = .ok entries) :
      Change (.create name dependencies title description) none
        (some ⟨name, entries, [], title, description⟩) (.package ⟨name, entries, [], title, description⟩)
  | setDependencies {name dependencies : Json} {entries : Fields} {p : Package}
      (read : dependencies.entries = .ok entries) :
      Change (.setDependencies name dependencies) (some p) (some { p with dependencies := entries }) .done
  | addVersion {name data : Json} {text checksum : String} {p : Package}
      (digest : data.checksum = .ok checksum) :
      Change (.addVersion name (.str text) data) (some p)
        (some { p with releases := p.releases ++ [⟨text, data, .str checksum⟩] })
        (.release ⟨text, data, .str checksum⟩)
  | deleteVersion {name version : Json} {p : Package} {any : Bool}
      (told : any = true ↔ ∃ r ∈ p.releases, Json.text r.version = version) :
      Change (.deleteVersion name version) (some p)
        (some { p with releases := p.releasesBut version }) (.removed any)
  | deletePackage {name : Json} {before : Option Package} :
      Change (.deletePackage name) before none (.removed before.isSome)

variable {store after : Store} {op : Operation} {answer : Answer} {k : Scalar} {p : Package}

theorem length_releasesBut {version : Json} :
    ((p.releasesBut version).length != p.releases.length) = true ↔
      ∃ r ∈ p.releases, Json.text r.version = version := by
  rw [bne_iff_ne, Ne, Package.releasesBut, List.length_filter_eq_length_iff]
  simp

theorem Effect.beside_eq (effect : Effect store op after answer) :
    after.beside op.name = store.beside op.name := by
  cases effect with
  | create named new read => exact Table.erase_snoc BEq.rfl store _
  | setDependencies found read => exact Table.erase_modify _ _ store
  | addVersion found written valid digest new => exact Table.erase_modify _ _ store
  | deleteVersion found => exact Table.erase_modify _ _ store
  | deletePackage => exact Table.erase_erase _ store
  | deleteNothing empty noKey => rfl

theorem get?_modify_self {f : Package → Package} (found : Table.get? k store = some p) :
    Table.get? k (Table.modify k f store) = some (f p) := by
  rw [Table.get?_modify, if_pos BEq.rfl, found, Option.map_some]

theorem Effect.change (effect : Effect store op after answer) (named : op.name = .scalar k) :
    Change op (Table.get? k store) (Table.get? k after) answer := by
  cases effect with
  | create valid new read =>
      cases named
      rw [Table.get?_append, new, Table.get?_cons, if_pos BEq.rfl]
      exact .create read
  | setDependencies found read =>
      cases named
      rw [get?_modify_self found, found]
      exact .setDependencies read
  | addVersion found written valid digest new =>
      cases named
      rw [get?_modify_self found, found]
      exact .addVersion digest
  | deleteVersion found =>
      cases named
      rw [get?_modify_self found, found]
      exact .deleteVersion length_releasesBut
  | deletePackage =>
      cases named
      rw [Table.get?_erase, if_pos BEq.rfl]
      exact .deletePackage
  | deleteNothing empty noKey => exact absurd named (noKey k)

/-- An operation that fails leaves the store as it is. One that succeeds leaves what stands beside the
package that it names, and changes of this package what it is about. -/
theorem perform_local (store : Store) (op : Operation) :
    (∀ e, (store.perform op).answer = .error e → (store.perform op).store = store) ∧
    ∀ answer, (store.perform op).answer = .ok answer →
      (store.perform op).store.beside op.name = store.beside op.name ∧
      ∀ k, op.name = .scalar k →
        Change op (Table.get? k store) (Table.get? k (store.perform op).store) answer := by
  constructor
  · intro e failed
    exact perform_of_error failed
  · intro answer succeeded
    have effect := effect_of_perform succeeded
    exact ⟨effect.beside_eq, fun k named => effect.change named⟩

/-- Two packages, one of them with two releases. -/
def smallStore : Store :=
  [(.str "alpha", ⟨.str "alpha", [], [⟨"1.0.0", .null, .null⟩, ⟨"2.0.0", .null, .null⟩], .null, .null⟩),
    (.str "beta", ⟨.str "beta", [(.str "alpha", .str "~> 1.0.0")], [], .str "Beta", .null⟩)]

theorem perform_local_smallStore :
    let refused := smallStore.perform (.setDependencies (.str "alpha") (.int 3))
    let deleted := smallStore.perform (.deleteVersion (.str "alpha") (.str "1.0.0"))
    (refused.answer = .error (.unfit .kind) ∧ refused.store = smallStore) ∧
      deleted.answer = .ok (.removed true) ∧
      deleted.store.beside (.str "alpha") = smallStore.beside (.str "alpha") ∧
      Change (.deleteVersion (.str "alpha") (.str "1.0.0")) (Table.get? (.str "alpha") smallStore)
        (Table.get? (.str "alpha") deleted.store) (.removed true) := by
  intro refused deleted
  have failed : refused.answer = .error (.unfit .kind) := rfl
  have succeeded : deleted.answer = .ok (.removed true) := rfl
  obtain ⟨beside, change⟩ := (perform_local smallStore _).2 _ succeeded
  exact ⟨⟨failed, (perform_local smallStore _).1 _ failed⟩, succeeded, beside, change _ rfl⟩

end Store

end ExprRegistry
