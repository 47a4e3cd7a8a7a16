import ExprRegistry.Proofs.Data.Pairing
import ExprRegistry.Proofs.Store.Loading

/-!
Versions in a store that was loaded from a document. Operations keep the versions of each package different,
and so does the publication of releases with data, but a strict load takes releases without data without
a look at their versions. Main statement: in all later states the versions are different exactly when no
release without data repeats a version that stands before it in its record.
-/

namespace ExprRegistry

/-- A release without data has a version that a release before it has. -/
def Release.RepeatsBare (given : List Release) : Prop :=
  ∃ before r after, given = before ++ r :: after ∧ r.data = .null ∧ r.version ∈ before.map (·.version)

namespace Release

variable {earlier given taken : List Release}

theorem Taken.versions (h : Taken earlier given taken) :
    taken.map (·.version) = given.map (·.version) := by
  induction h with
  | nil => rfl
  | bare _ _ ih => rw [List.map_cons, List.map_cons, ih]
  | published _ version _ _ _ _ ih => rw [List.map_cons, List.map_cons, ih, version]

/-- The induction is on the load, so `earlier` holds at each step what was taken so far, and a repetition in
the rest is one in the whole. -/
theorem Taken.nodup (h : Taken earlier given taken) (distinct : (earlier.map (·.version)).Nodup)
    (new : ∀ before r after, given = before ++ r :: after → r.data = .null →
      r.version ∉ (earlier ++ before).map (·.version)) :
    ((earlier ++ taken).map (·.version)).Nodup := by
  induction h with
  | nil => rwa [List.append_nil]
  | @bare earlier rest taken r empty later ih =>
      have fresh := new [] r rest rfl empty
      rw [List.append_nil] at fresh
      rw [List.append_cons]
      refine ih (nodup_snoc distinct fresh) ?_
      rintro before s after rfl bare
      rw [← List.append_cons]
      exact new (r :: before) s after rfl bare
  | @published earlier rest taken r s given version data published fresh later ih =>
      rw [List.append_cons]
      refine ih (nodup_snoc distinct fresh) ?_
      rintro before t after rfl bare
      have same : (earlier ++ [s] ++ before).map (·.version) = (earlier ++ r :: before).map (·.version) := by
        simp [version]
      rw [same]
      exact new (r :: before) t after rfl bare

theorem Taken.nodup_iff (h : Taken [] given taken) :
    (taken.map (·.version)).Nodup ↔ ¬ RepeatsBare given := by
  constructor
  · rintro distinct ⟨before, r, after, rfl, _, repeated⟩
    rw [h.versions, List.map_append] at distinct
    exact List.disjoint_of_nodup_append distinct repeated List.mem_cons_self
  · intro unrepeated
    refine h.nodup List.nodup_nil fun before r after split empty repeated => ?_
    exact unrepeated ⟨before, r, after, split, empty, repeated⟩

end Release

namespace Store

variable {store : Store} {document : Json}

theorem kept_nodup : Kept fun _ p => p.versionTexts.Nodup where
  created _ _ _ _ _ := List.nodup_nil
  declared _ _ _ h := h
  published _ _ _ h _ new := Package.nodup_publish h new
  deleted _ _ version h := Package.nodup_releasesBut h version

theorem Entry.nodup_iff {record : Json} {e : Scalar × Package} (h : Entry true record e) :
    e.2.versionTexts.Nodup ↔ ∀ p, Package.ofJson record = .ok p → ¬ Release.RepeatsBare p.releases := by
  obtain ⟨p, read, _, releases, taken, same⟩ := h
  rw [same, read]
  constructor
  · rintro distinct q ⟨⟩
    exact taken.nodup_iff.mp distinct
  · exact fun unrepeated => taken.nodup_iff.mpr (unrepeated p rfl)

/-- After a strict load no package ever has two releases of one version, whatever is done to the store,
exactly when no release without data repeats an earlier version of its record. -/
theorem unique_after_strict_load_iff (loaded : (ofDocument true document).result = .ok store) :
    (∀ operations, ∀ e ∈ store.performAll operations, e.2.versionTexts.Nodup) ↔
      ∀ record ∈ document.indexEntries, ∀ p, Package.ofJson record = .ok p →
        ¬ Release.RepeatsBare p.releases := by
  obtain ⟨_, entries, distinct⟩ := ofDocument_eq_ok_iff.mp loaded
  rw [forall_mem_iff_of_forall₂ (fun _ _ entry => entry.nodup_iff.symm) entries]
  constructor
  · exact fun always => always []
  · exact fun unique operations => (kept_nodup.performAll operations distinct unique).2

/-- A document with one package. -/
def singleDocument (versions : List Json) : Json :=
  .obj [("packages", .arr [.obj [("name", .str "logic"), ("versions", .arr versions)]])]

/-- The record of a release with data. -/
def checkedRelease : Json :=
  .obj [("version", .str "1.0.0"), ("expression_data", .obj [("g", .str "ref"), ("v", .str "and")])]

theorem unique_after_strict_load_single :
    ∃ store, (ofDocument true (singleDocument [.str "0.9.0", checkedRelease])).result = .ok store ∧
      ((∀ operations, ∀ e ∈ store.performAll operations, e.2.versionTexts.Nodup) ↔
        ∀ record ∈ (singleDocument [.str "0.9.0", checkedRelease]).indexEntries, ∀ p,
          Package.ofJson record = .ok p → ¬ Release.RepeatsBare p.releases) :=
  ⟨_, rfl, unique_after_strict_load_iff rfl⟩

/-- A version that was published from data is taken once more without data. In the other order the same
two releases are refused. -/
theorem strict_load_repeats_version :
    (∃ store, (ofDocument true (singleDocument [checkedRelease, .str "1.0.0"])).result = .ok store ∧
      ∃ e ∈ store, ¬ e.2.versionTexts.Nodup) ∧
    (ofDocument true (singleDocument [.str "1.0.0", checkedRelease])).result =
      .error (.store (.versionExists (.str "logic") "1.0.0")) := by
  constructor
  · refine ⟨_, rfl, _, List.mem_cons_self, ?_⟩
    decide
  · rfl

end Store

end ExprRegistry
