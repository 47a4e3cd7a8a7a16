import ExprRegistry.Proofs.Store.Effect
import Mathlib.Data.List.Nodup

/-!
What holds of a store that operations have built. `Kept` says of a property of packages that new packages
have it and that nothing which is done to a package takes it away; then every run of operations keeps it up,
with failing ones among them. Main statement: in a store that was built from nothing every package stands
under its own name, no version is published twice, and every release holds a checked expression with its
checksum.
-/

namespace ExprRegistry

/-- A release that has been checked: a version, an expression and the checksum of its data. -/
structure Release.Published (r : Release) : Prop where
  written : ∃ text, r.version = .whole text ∧ IsVersionText text
  valid : ∃ e, Expr.decode r.data = .ok e
  digest : ∃ checksum, r.data.checksum = .ok checksum ∧ r.checksum = .str checksum

/-- A property of packages under their keys that new packages have, and that stays whatever is done. -/
structure Store.Kept (I : Scalar → Package → Prop) : Prop where
  created : ∀ text entries title description, IsPackageName text →
    I (.str text) ⟨.str text, entries, [], title, description⟩
  declared : ∀ k p entries, I k p → I k { p with dependencies := entries }
  published : ∀ k p r, I k p → r.Published → p.release? (.text r.version) = none →
    I k { p with releases := p.releases ++ [r] }
  deleted : ∀ k p version, I k p → I k { p with releases := p.releasesBut version }

namespace Store

variable {store after : Store} {op : Operation} {answer : Answer} {I : Scalar → Package → Prop}

theorem Effect.distinct (effect : Effect store op after answer) (h : Table.Distinct store) :
    Table.Distinct after := by
  cases effect with
  | create named new read => exact Table.Distinct.snoc h (Table.get?_eq_none_iff.mp new)
  | setDependencies found read => exact h.modify _ _
  | addVersion found written valid digest new => exact h.modify _ _
  | deleteVersion found => exact h.modify _ _
  | deletePackage => exact h.erase _
  | deleteNothing empty noKey => exact h

theorem forall_mem_modify (h : Table.Distinct store) {k : Scalar} {p : Package} {f : Package → Package}
    (found : Table.get? k store = some p) (all : ∀ e ∈ store, I e.1 e.2) (step : ∀ l, I l p → I l (f p)) :
    ∀ e ∈ Table.modify k f store, I e.1 e.2 := by
  intro e member
  rcases h.mem_modify found member with old | ⟨l, listed, rfl⟩
  · exact all e old
  · exact step l (all (l, p) listed)

theorem Kept.effect (kept : Kept I) (effect : Effect store op after answer) (h : Table.Distinct store)
    (all : ∀ e ∈ store, I e.1 e.2) : ∀ e ∈ after, I e.1 e.2 := by
  cases effect with
  | create named new read =>
      exact List.forall_mem_append.mpr ⟨all, List.forall_mem_singleton.mpr (kept.created _ _ _ _ named)⟩
  | @setDependencies k p dependencies entries found read =>
      exact forall_mem_modify h found all fun l => kept.declared l p entries
  | @addVersion k p text checksum data found written valid digest new =>
      have published : Release.Published ⟨text, data, .str checksum⟩ :=
        ⟨⟨text, rfl, written⟩, valid, checksum, digest, rfl⟩
      exact forall_mem_modify h found all fun l holds => kept.published l p _ holds published new
  | @deleteVersion k p version found => exact forall_mem_modify h found all fun l => kept.deleted l p version
  | deletePackage => exact fun e member => all e (List.mem_of_mem_filter member)
  | deleteNothing empty noKey => exact all

/-- A run of operations keeps the keys distinct, and with them what is kept of each package. -/
theorem Kept.performAll (kept : Kept I) (operations : List Operation) (h : Table.Distinct store)
    (all : ∀ e ∈ store, I e.1 e.2) :
    Table.Distinct (store.performAll operations) ∧ ∀ e ∈ store.performAll operations, I e.1 e.2 := by
  refine performAll_of_effects (P := fun store => Table.Distinct store ∧ ∀ e ∈ store, I e.1 e.2) ⟨h, all⟩ ?_
  rintro op _ before after answer ⟨h, all⟩ effect
  exact ⟨effect.distinct h, kept.effect effect h all⟩

end Store

/-! ### Sound stores -/

/-- A package that has a name, and releases that have been checked, with different versions. -/
structure Package.Sound (p : Package) : Prop where
  named : ∃ text, p.name = .str text ∧ IsPackageName text
  distinct : p.versionTexts.Nodup
  published : ∀ r ∈ p.releases, r.Published

/-- A store of sound packages, each under its own name and in one place only. -/
structure Store.Sound (store : Store) : Prop where
  distinct : Table.Distinct store
  packages : ∀ e ∈ store, e.2.name = .scalar e.1 ∧ e.2.Sound

variable {p : Package}

theorem Release.nodup_snoc {releases : List Release} {r : Release}
    (h : (releases.map (·.version)).Nodup) (new : r.version ∉ releases.map (·.version)) :
    ((releases ++ [r]).map (·.version)).Nodup := by
  rw [List.map_append]
  refine h.append (List.nodup_singleton _) ?_
  rw [List.map_singleton, List.disjoint_singleton]
  exact new

namespace Package

theorem release?_eq_none_iff {text : Text} : p.release? (.text text) = none ↔ text ∉ p.versionTexts := by
  rw [release?, List.find?_eq_none, versionTexts, List.mem_map]
  constructor
  · rintro none ⟨r, member, rfl⟩
    exact none r member (decide_eq_true rfl)
  · intro absent r member same
    refine absent ⟨r, member, ?_⟩
    cases of_decide_eq_true same
    rfl

theorem nodup_publish {r : Release} (h : p.versionTexts.Nodup) (new : p.release? (.text r.version) = none) :
    ({ p with releases := p.releases ++ [r] } : Package).versionTexts.Nodup :=
  Release.nodup_snoc h (release?_eq_none_iff.mp new)

theorem nodup_releasesBut (h : p.versionTexts.Nodup) (version : Json) :
    ({ p with releases := p.releasesBut version } : Package).versionTexts.Nodup :=
  h.sublist (List.filter_sublist.map _)

theorem Sound.publish {r : Release} (h : p.Sound) (published : r.Published)
    (new : p.release? (.text r.version) = none) :
    ({ p with releases := p.releases ++ [r] } : Package).Sound := by
  refine ⟨h.named, nodup_publish h.distinct new, ?_⟩
  intro s member
  rcases List.mem_append.mp member with old | last
  · exact h.published s old
  · rw [List.mem_singleton.mp last]
    exact published

theorem Sound.delete (h : p.Sound) (version : Json) :
    ({ p with releases := p.releasesBut version } : Package).Sound :=
  ⟨h.named, nodup_releasesBut h.distinct version,
    fun r member => h.published r (List.mem_of_mem_filter member)⟩

end Package

namespace Store

/-- Publishing a release of the package that stands last: it has to be checked, and its version new. -/
theorem effect_addVersion_snoc_iff {store after : Store} {k : Scalar} {p : Package} {version : Text}
    {data : Json} {answer : Answer} (absent : Table.has k store = false) :
    Effect (store ++ [(k, p)]) (.addVersion (.scalar k) (.text version) data) after answer ↔
      ∃ r : Release, r.version = version ∧ r.data = data ∧ r.Published ∧ version ∉ p.versionTexts ∧
        after = store ++ [(k, { p with releases := p.releases ++ [r] })] ∧ answer = .release r := by
  have stored := Table.get?_snoc absent p
  constructor
  · intro effect
    cases effect with
    | @addVersion _ _ text checksum _ found written valid digest new =>
        cases stored.symm.trans found
        refine ⟨⟨text, data, .str checksum⟩, rfl, rfl, ⟨⟨text, rfl, written⟩, valid, checksum, digest, rfl⟩, ?_, ?_, rfl⟩
        · exact Package.release?_eq_none_iff.mp new
        · exact Table.modify_snoc absent p _
  · rintro ⟨⟨version, content, sum⟩, rfl, rfl, ⟨⟨_, ⟨⟩, written⟩, valid, checksum, digest, rfl⟩, new, rfl, rfl⟩
    have effect := Effect.addVersion stored written valid digest (Package.release?_eq_none_iff.mpr new)
    rwa [Table.modify_snoc absent] at effect

/-- Under its name a package stays sound, whatever is done. -/
theorem kept_sound : Kept fun k p => p.name = .scalar k ∧ p.Sound where
  created text _ _ _ named := ⟨rfl, ⟨text, rfl, named⟩, List.nodup_nil, nofun⟩
  declared _ _ _ h := ⟨h.1, h.2.named, h.2.distinct, h.2.published⟩
  published _ _ _ h published new := ⟨h.1, h.2.publish published new⟩
  deleted _ _ version h := ⟨h.1, h.2.delete version⟩

/-- Whatever is asked of an empty store, in any order and with any arguments, the store that results is
sound. -/
theorem performAll_sound (operations : List Operation) : (Store.performAll [] operations).Sound := by
  have nothing : Table.Distinct ([] : Store) := List.Pairwise.nil
  obtain ⟨distinct, packages⟩ := kept_sound.performAll operations nothing nofun
  exact ⟨distinct, packages⟩

end Store

end ExprRegistry
