import ExprRegistry.Proofs.Version.Comparison

/-!
Which candidate a selection chooses. It is the first one of the highest precedence among those that count: no other one
that counts comes after it in precedence, and those that stand before it come before it. In another order of the
candidates another one may be chosen, but with the same version up to build metadata. Main statement:
`selection_first_highest`.
-/

namespace ExprRegistry.Version

open Std

variable {candidates others : List String} {c d : String} {v : Version} {counts : Version → Bool}
  {meets : String → Prop} {chosen again : Option String}

/-- A candidate that counts, where none that counts comes after it in precedence and all that count and stand before it
come before it. -/
def FirstHighest (meets : String → Prop) (candidates : List String) (c : String) : Prop :=
  ∃ v before after, candidates = before ++ c :: after ∧ ofText? c = some v ∧ meets c ∧
    (∀ e ∈ candidates, meets e → ∀ w, ofText? e = some w → (w.precedence v).isLE) ∧
    ∀ e ∈ before, meets e → ∀ w, ofText? e = some w → w.precedence v = .lt

/-- What is chosen among the candidates that count. -/
structure Selects (meets : String → Prop) (candidates : List String) (chosen : Option String) : Prop where
  none_iff : chosen = none ↔ ∀ c ∈ candidates, ¬ meets c
  some_iff : ∀ c, chosen = some c ↔ FirstHighest meets candidates c

/-! ### Candidates that count -/

/-- A candidate with its version, if that counts. -/
def counted? (counts : Version → Bool) (c : String) : Option (Version × String) :=
  ((ofText? c).map fun v => (v, c)).filter fun e => counts e.1

theorem counted?_eq_some_iff {e : Version × String} :
    counted? counts c = some e ↔ e.2 = c ∧ ofText? c = some e.1 ∧ counts e.1 = true := by
  obtain ⟨v, d⟩ := e
  simp only [counted?, Option.filter_eq_some_iff, Option.map_eq_some_iff, Prod.mk.injEq]
  constructor
  · rintro ⟨⟨_, read, rfl, rfl⟩, counted⟩
    exact ⟨rfl, read, counted⟩
  · rintro ⟨rfl, read, counted⟩
    exact ⟨⟨v, read, rfl, rfl⟩, counted⟩

theorem filter_readable (counts : Version → Bool) (candidates : List String) :
    (readable ofText? candidates).filter (fun e => counts e.1) = candidates.filterMap (counted? counts) :=
  List.filter_filterMap

theorem mem_counted (counted : ofText? c = some v ∧ counts v = true) (member : c ∈ candidates) :
    (v, c) ∈ candidates.filterMap (counted? counts) :=
  List.mem_filterMap.mpr ⟨c, member, counted?_eq_some_iff.mpr ⟨rfl, counted⟩⟩

/-- The first of the candidates that count, seen among all candidates. -/
theorem firstBest_iff (agree : ∀ c, meets c ↔ ∃ v, ofText? c = some v ∧ counts v = true) :
    (∃ v, FirstBest (candidates.filterMap (counted? counts)) (v, c)) ↔ FirstHighest meets candidates c := by
  have read {e : String} {w : Version} (counted : meets e) (here : ofText? e = some w) : counts w = true := by
    obtain ⟨x, there, counted⟩ := (agree e).mp counted
    cases here.symm.trans there
    exact counted
  constructor
  · rintro ⟨v, first⟩
    obtain ⟨lower, rest, split, below, -⟩ := id first
    obtain ⟨front, back, rfl, rfl, behind⟩ := List.filterMap_eq_append_iff.mp split
    obtain ⟨passed, e, after, rfl, uncounted, here, rfl⟩ := List.filterMap_eq_cons_iff.mp behind
    obtain ⟨rfl, same, counted⟩ := counted?_eq_some_iff.mp here
    refine ⟨v, front ++ passed, after, (List.append_assoc _ _ _).symm, same, (agree c).mpr ⟨v, same, counted⟩, ?_, ?_⟩
    · intro e member counted w found
      exact first.isLE (mem_counted ⟨found, read counted found⟩ member)
    · intro e member counted w found
      have counted : counted? counts e = some (w, e) :=
        counted?_eq_some_iff.mpr ⟨rfl, found, read counted found⟩
      rcases List.mem_append.mp member with early | late
      · exact below (w, e) (List.mem_filterMap.mpr ⟨e, early, counted⟩)
      · rw [uncounted e late] at counted
        cases counted
  · rintro ⟨v, before, after, rfl, same, counted, highest, first⟩
    have here : counted? counts c = some (v, c) := counted?_eq_some_iff.mpr ⟨rfl, same, read counted same⟩
    refine ⟨v, before.filterMap (counted? counts), after.filterMap (counted? counts), ?_, ?_, ?_⟩
    · rw [List.filterMap_append, List.filterMap_cons, here]
    · intro e listed
      obtain ⟨d, member, told⟩ := List.mem_filterMap.mp listed
      obtain ⟨rfl, found, counted⟩ := counted?_eq_some_iff.mp told
      exact first e.2 member ((agree e.2).mpr ⟨e.1, found, counted⟩) e.1 found
    · intro e listed
      obtain ⟨d, member, told⟩ := List.mem_filterMap.mp listed
      obtain ⟨rfl, found, counted⟩ := counted?_eq_some_iff.mp told
      have later : e.2 ∈ before ++ c :: after := List.mem_append_right _ (List.mem_cons_of_mem _ member)
      exact highest e.2 later ((agree e.2).mpr ⟨e.1, found, counted⟩) e.1 found

theorem selects_best? (agree : ∀ c, meets c ↔ ∃ v, ofText? c = some v ∧ counts v = true) :
    Selects meets candidates (best? (candidates.filterMap (counted? counts))) := by
  refine ⟨?_, fun c => best?_eq_some_iff.trans (firstBest_iff agree)⟩
  rw [best?_eq_none_iff, List.filterMap_eq_nil_iff]
  apply forall₂_congr
  intro c _
  rw [agree, Option.eq_none_iff_forall_ne_some]
  constructor
  · rintro none ⟨v, counted⟩
    exact none (v, c) (counted?_eq_some_iff.mpr ⟨rfl, counted⟩)
  · intro uncounted e told
    exact uncounted ⟨e.1, (counted?_eq_some_iff.mp told).2⟩

theorem selects_latestMeeting? (req : Requirement) (candidates : List String) :
    Selects (fun c => req.admitsJson (.str c) = true) candidates (latestMeeting? ofText? req candidates) := by
  rw [latestMeeting?, filter_readable req.admits]
  exact selects_best? fun c => Requirement.admitsJson_str_iff

theorem selects_latest? (candidates : List String) :
    Selects (fun c => ∃ v, ofText? c = some v) candidates (latest? ofText? candidates) := by
  have all := filter_readable (fun _ => true) candidates
  rw [List.filter_true] at all
  rw [latest?, all]
  exact selects_best? fun c => by simp only [and_true]

/-! ### Candidates in another order -/

/-- Two versions that are read and do not come after each other differ in build metadata only. -/
theorem withoutBuild_eq {w : Version} (read : ofText? c = some v) (read' : ofText? d = some w)
    (low : (v.precedence w).isLE) (high : (w.precedence v).isLE) : v.withoutBuild = w.withoutBuild := by
  obtain ⟨parts, sound, rfl⟩ := Requirement.exists_parts_of_ofText? read
  obtain ⟨parts', sound', rfl⟩ := Requirement.exists_parts_of_ofText? read'
  exact (precedence_eq_iff (unpadded_value sound) (unpadded_value sound')).mp (OrientedCmp.isLE_antisymm low high)

/-- The version that a chosen candidate writes, as far as precedence goes. -/
def rank (chosen : Option String) : Option Version := (chosen.bind ofText?).map withoutBuild

theorem FirstHighest.rank_eq (h : FirstHighest meets candidates c) (k : FirstHighest meets others d)
    (same : ∀ e, e ∈ candidates ↔ e ∈ others) : rank (some c) = rank (some d) := by
  obtain ⟨v, before, after, split, read, counted, highest, -⟩ := h
  obtain ⟨w, before', after', split', read', counted', highest', -⟩ := k
  have here : c ∈ others := (same c).mp (by rw [split]; simp)
  have there : d ∈ candidates := (same d).mpr (by rw [split']; simp)
  have equal : v.withoutBuild = w.withoutBuild :=
    withoutBuild_eq read read' (highest' c here counted v read) (highest d there counted' w read')
  simp only [rank, Option.bind_some, read, read', Option.map_some, equal]

theorem Selects.rank_eq (h : Selects meets candidates chosen) (k : Selects meets others again)
    (same : ∀ e, e ∈ candidates ↔ e ∈ others) : rank chosen = rank again := by
  have none_iff : chosen = none ↔ again = none := by
    rw [h.none_iff, k.none_iff]
    exact forall_congr' fun e => imp_congr_left (same e)
  cases chosen with
  | none => rw [none_iff.mp rfl]
  | some c =>
      cases again with
      | none => cases none_iff.mpr rfl
      | some d => exact ((h.some_iff c).mp rfl).rank_eq ((k.some_iff d).mp rfl) same

theorem rank_latestText (candidates : List String) :
    rank (some (latestText candidates)) = (rank (latest? ofText? candidates)).or (rank (some sentinel)) := by
  rw [latestText]
  cases found : latest? ofText? candidates with
  | none => rfl
  | some c =>
      obtain ⟨-, v, read, -⟩ := latest?_eq_some found
      simp only [rank, Option.getD_some, Option.bind_some, read, Option.map_some, Option.some_or]

/-- A selection chooses the first candidate of the highest precedence among those that meet the requirement, and none
only where none meets it. The latest version is chosen in the same way among all candidates that write a version; it is
the sentinel where there are none. The precedence of what is chosen does not depend on the order of the candidates. -/
theorem selection_first_highest (candidates : List String) (req : Requirement) :
    (latestMeeting? ofText? req candidates = none ↔ ∀ c ∈ candidates, ¬ req.admitsJson (.str c) = true) ∧
    (∀ c, latestMeeting? ofText? req candidates = some c ↔
      FirstHighest (fun c => req.admitsJson (.str c) = true) candidates c) ∧
    (∀ c, (∃ e ∈ candidates, ∃ v, ofText? e = some v) →
      (latestText candidates = c ↔ FirstHighest (fun c => ∃ v, ofText? c = some v) candidates c)) ∧
    (latestText candidates = sentinel ↔ (∀ c ∈ candidates, ofText? c = none) ∨
      FirstHighest (fun c => ∃ v, ofText? c = some v) candidates sentinel) ∧
    ∀ others, candidates.Perm others →
      rank (latestMeeting? ofText? req candidates) = rank (latestMeeting? ofText? req others) ∧
      rank (some (latestText candidates)) = rank (some (latestText others)) := by
  have meeting := selects_latestMeeting? req candidates
  have latest := selects_latest? candidates
  refine ⟨meeting.none_iff, meeting.some_iff, ?_, ?_, ?_⟩
  · rintro c ⟨e, member, counted⟩
    rw [← latest.some_iff, latestText]
    cases found : latest? ofText? candidates with
    | none => exact absurd counted (latest.none_iff.mp found e member)
    | some d => rw [Option.getD_some, Option.some_inj]
  · have unread : (∀ c ∈ candidates, ofText? c = none) ↔ latest? ofText? candidates = none := by
      rw [latest.none_iff]
      simp only [Option.eq_none_iff_forall_ne_some, not_exists, ne_eq]
    rw [unread, ← latest.some_iff, latestText]
    cases latest? ofText? candidates with
    | none => simp
    | some d => simp
  · intro others rearranged
    have same : ∀ e, e ∈ candidates ↔ e ∈ others := fun e => rearranged.mem_iff
    refine ⟨meeting.rank_eq (selects_latestMeeting? req others) same, ?_⟩
    rw [rank_latestText, rank_latestText, latest.rank_eq (selects_latest? others) same]

/-- Of two candidates that differ in build metadata only the earlier one is chosen, and the other one when the order is
turned around; both are the same version up to build metadata. -/
theorem selection_first_highest_builds :
    let candidates := ["1.0.0", "1.x", "1.2.0+b", "1.2.0+a", "2.0.0-rc.1"]
    let req : Requirement := ⟨"~> 1.0", .compatible, ⟨1, 0, 0, [], []⟩, 2⟩
    Requirement.ofText "~> 1.0" = .ok req ∧
      FirstHighest (fun c => req.admitsJson (.str c) = true) candidates "1.2.0+b" ∧
      FirstHighest (fun c => ∃ v, ofText? c = some v) candidates "2.0.0-rc.1" ∧
      candidates.Perm candidates.reverse ∧ latestMeeting? ofText? req candidates.reverse = some "1.2.0+a" ∧
      rank (some "1.2.0+b") = rank (some "1.2.0+a") := by
  intro candidates req
  have turned : candidates.Perm candidates.reverse := (List.reverse_perm candidates).symm
  have last : latestMeeting? ofText? req candidates.reverse = some "1.2.0+a" := by decide
  have chosen : latestMeeting? ofText? req candidates = some "1.2.0+b" := by decide
  have latest : latestText candidates = "2.0.0-rc.1" := by decide
  obtain ⟨-, first, all, -, order⟩ := selection_first_highest candidates req
  have some_read : ∃ e ∈ candidates, ∃ v, ofText? e = some v :=
    ⟨"1.0.0", by decide, ⟨1, 0, 0, [], []⟩, by decide⟩
  have same := (order candidates.reverse turned).1
  rw [chosen, last] at same
  exact ⟨by decide, (first _).mp chosen, (all _ some_read).mp latest, turned, last, same⟩

end ExprRegistry.Version
