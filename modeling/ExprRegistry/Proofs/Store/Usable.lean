import ExprRegistry.Proofs.Store.Verdict
import ExprRegistry.Proofs.Version.Asking
import ExprRegistry.Proofs.Version.Select

/-!
What publishing a version is worth. A store takes more texts for versions than the selections read: it minds
neither zeros in front of a number, nor identifiers that are empty, nor numbers of any length. Main statement: a
text that the store takes for a version serves every selection among versions and meets the requirement that it
writes itself when it is strictly written, and is passed over by all of them when it is not.
-/

namespace ExprRegistry.Version

variable {s : String} {v : Version}

/-- A text that writes the parts of a released version, with nothing around them. -/
def IsStrict (s : String) : Prop := ∃ parts : Parts, parts.Regular ∧ parts.Strict ∧ s.toList = parts.written

theorem exists_ofText?_iff (written : IsVersionText s) : (∃ v, ofText? s = some v) ↔ IsStrict s := by
  obtain ⟨parts, regular, _, same⟩ := written
  constructor
  · rintro ⟨v, read⟩
    exact ⟨parts, regular, ((ofText?_of_written regular same).mp read).1, same⟩
  · rintro ⟨other, regular, strict, same⟩
    exact ⟨other.value, (ofText?_of_written regular same).mpr ⟨strict, rfl⟩⟩

/-- A text that takes part in selections as a version. The requirement that it writes itself chooses it, or a
version that differs in its build metadata only. -/
structure Served (s : String) (v : Version) : Prop where
  read : ofText? s = some v
  candidate : ∀ versions, s ∈ versions → (v, s) ∈ readable ofText? versions
  latest : ∀ versions, s ∈ versions →
    latestText versions ∈ versions ∧ ∃ w, ofText? (latestText versions) = some w ∧ (v.precedence w).isLE
  required : ∃ req, Requirement.ofText s = .ok req ∧ req.admitsJson (.str s) = true ∧
    ∀ versions, s ∈ versions → ∃ t w, latestMeeting? ofText? req versions = some t ∧
      ofText? t = some w ∧ w.withoutBuild = v.withoutBuild

/-- A text that no selection reads as a version and that meets no requirement. -/
structure PassedOver (s : String) : Prop where
  unread : ofText? s = none
  skipped : ∀ versions, s ∈ versions → s ∈ unreadable ofText? versions
  latest : ∀ versions, latestText versions ≠ s
  chosen : ∀ req versions, latestMeeting? ofText? req versions ≠ some s
  unmet : ∀ req : Requirement, req.admitsJson (.str s) = false

theorem Served.of_strict {parts : Parts} (regular : parts.Regular) (strict : parts.Strict)
    (written : s.toList = parts.written) : Served s parts.value := by
  have read : ofText? s = some parts.value := (ofText?_of_written regular written).mpr ⟨strict, rfl⟩
  have required := Requirement.ofText_of_written regular strict.patched strict.toSound written
  have itself : Requirement.admits ⟨s, .exactly, parts.value, 3⟩ parts.value = true := decide_eq_true rfl
  refine ⟨read, fun versions member => mem_readable.mpr ⟨member, read⟩, ?_, _, required,
    Requirement.admitsJson_str_iff.mpr ⟨parts.value, read, itself⟩, ?_⟩
  · intro versions member
    obtain ⟨t, w, latest, stored, found, after⟩ := latest?_of_mem member read
    rw [latestText, latest]
    exact ⟨stored, w, found, after⟩
  · intro versions member
    obtain ⟨t, w, chosen, found, met, _⟩ := latestMeeting?_of_mem member read itself
    exact ⟨t, w, chosen, found, of_decide_eq_true met⟩

theorem PassedOver.of_unread (unread : ofText? s = none) : PassedOver s where
  unread := unread
  skipped versions member := List.mem_filter.mpr ⟨member, Option.isNone_iff_eq_none.mpr unread⟩
  latest versions same := by
    obtain ⟨v, read⟩ := ofText?_latestText versions
    rw [same, unread] at read
    cases read
  chosen req versions same := by
    obtain ⟨_, v, read, _⟩ := latestMeeting?_eq_some same
    rw [unread] at read
    cases read
  unmet req := by rw [Requirement.admitsJson_str, unread]

end ExprRegistry.Version

namespace ExprRegistry.Store

open Version

variable {store : Store} {name data : Json} {s : String}

/-- A text is refused as a version exactly when it is not written like one, whatever else is asked for. -/
theorem accepted_iff :
    (store.perform (.addVersion name (.str s) data)).answer ≠ .error (.invalid (.versionText (.str s))) ↔
      IsVersionText s := by
  rw [← isVersionText_iff]
  constructor
  · intro accepted
    refine (Bool.not_eq_false _).mp fun refused => accepted ?_
    simp [perform, Store.addVersion, refused]
  · intro written refused
    have failed := ofEnd_answer_eq_error_iff.mp refused
    simp only [Store.addVersion, written, Bool.not_true, Bool.false_eq_true, if_false] at failed
    -- Each later check fails with an error of its own.
    split at failed
    case h_1 =>
      rw [StoreError.refused] at failed
      split at failed <;> cases failed
    split at failed
    · cases failed
    split at failed
    case h_1 unknown =>
      cases failed
      rw [Store.require.eq_def] at unknown
      split at unknown
      · split at unknown <;> cases unknown
      · cases unknown
    case h_2 => split at failed <;> cases failed

/-- A release that has been published is stored in its package, under its version. -/
theorem versions_of_published {r : Release}
    (published : (store.perform (.addVersion name (.str s) data)).answer = .ok (.release r)) :
    ∃ k p, name = .scalar k ∧ Table.get? k (store.perform (.addVersion name (.str s) data)).store = some p ∧
      s ∈ p.versions := by
  generalize later : (store.perform (.addVersion name (.str s) data)).store = after
  have effect := effect_of_perform published
  rw [later] at effect
  cases effect with
  | @addVersion k p _ checksum _ found =>
      refine ⟨k, _, rfl, by rw [Table.get?_modify, if_pos BEq.rfl, found]; rfl, ?_⟩
      have listed : Text.whole s ∈ (p.releases ++ [(⟨.whole s, data, .str checksum⟩ : Release)]).map Release.version :=
        List.mem_map_of_mem (List.mem_append_right p.releases List.mem_cons_self)
      exact List.mem_filterMap.mpr ⟨.whole s, listed, rfl⟩

/-- A text that is taken for a version, whatever becomes of the release, serves as a version when it is strictly
written and is passed over when it is not; and a release that is published stands among the versions of its
package. -/
theorem accepted_version_served
    (accepted : (store.perform (.addVersion name (.str s) data)).answer ≠ .error (.invalid (.versionText (.str s)))) :
    (IsStrict s → ∃ v, Served s v) ∧ (¬ IsStrict s → PassedOver s) ∧
      ∀ r, (store.perform (.addVersion name (.str s) data)).answer = .ok (.release r) →
        ∃ k p, name = .scalar k ∧ Table.get? k (store.perform (.addVersion name (.str s) data)).store = some p ∧
          s ∈ p.versions := by
  have written := accepted_iff.mp accepted
  refine ⟨?_, ?_, fun r published => versions_of_published published⟩
  · rintro ⟨parts, regular, strict, same⟩
    exact ⟨parts.value, .of_strict regular strict same⟩
  · intro lax
    refine .of_unread (Option.eq_none_iff_forall_ne_some.mpr fun v read => lax ?_)
    exact (exists_ofText?_iff written).mp ⟨v, read⟩

/-- Publishing a version whose expression is a reference. -/
def publishReference (version : String) : Operation :=
  .addVersion (.str "logic") (.str version) (Expr.tagged .reference (.str "and"))

theorem exists_release_of_isVersionText (written : IsVersionText s) :
    ∃ r, (emptyLogic.perform (publishReference s)).answer = .ok (.release r) := by
  have keyed : (Expr.tagged .reference (.str "and")).TextKeyed :=
    .cons "g" (.scalar _) (.cons "v" (.scalar _) .empty)
  have found : Table.get? (.str "logic") emptyLogic = some ⟨.str "logic", [], [], .null, .null⟩ := rfl
  obtain ⟨checksum, digest⟩ := Json.Digestible.checksum_eq_ok ⟨keyed, rfl, rfl⟩
  exact ⟨_, (perform_of_effect (.addVersion found written ⟨_, rfl⟩ digest rfl)).2⟩

theorem accepted_version_served_candidate :
    (emptyLogic.perform (publishReference "1.0.0-rc.1+b.05")).answer ≠
      .error (.invalid (.versionText (.str "1.0.0-rc.1+b.05"))) ∧ ∃ v, Served "1.0.0-rc.1+b.05" v := by
  have written : IsVersionText "1.0.0-rc.1+b.05" := isVersionText_iff.mp (by decide)
  have read : ofText? "1.0.0-rc.1+b.05" = some ⟨1, 0, 0, ["rc", "1"], ["b", "05"]⟩ := by decide
  have accepted : (emptyLogic.perform (publishReference "1.0.0-rc.1+b.05")).answer ≠ _ := accepted_iff.mpr written
  exact ⟨accepted, (accepted_version_served accepted).1 ((exists_ofText?_iff written).mp ⟨_, read⟩)⟩

/-- A version with a zero in front is published, and then nothing reads it. -/
theorem padded_version_unread :
    (∃ r, (emptyLogic.perform (publishReference "01.0.0")).answer = .ok (.release r)) ∧
      ofText? "01.0.0" = none ∧ ∀ req : Requirement, req.admitsJson (.str "01.0.0") = false := by
  have unread : ofText? "01.0.0" = none := by decide
  exact ⟨exists_release_of_isVersionText (isVersionText_iff.mp (by decide)), unread,
    (PassedOver.of_unread unread).unmet⟩

end ExprRegistry.Store
