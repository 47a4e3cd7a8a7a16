import ExprRegistry.Proofs.Version.Order
import ExprRegistry.Version.Select

/-!
What a selection chooses. A chosen candidate writes a version that meets the requirement, and none of the
candidates that do so comes after it in precedence; nothing is chosen only where no candidate meets the
requirement.
-/

namespace ExprRegistry.Version

open Std

variable {α : Type} {read : α → Option Version} {candidates : List α} {c : α} {v : Version}

theorem mem_readable : (v, c) ∈ readable read candidates ↔ c ∈ candidates ∧ read c = some v := by
  simp only [readable, List.mem_filterMap, Option.map_eq_some_iff, Prod.mk.injEq]
  constructor
  · rintro ⟨c', member, v', found, rfl, rfl⟩
    exact ⟨member, found⟩
  · rintro ⟨member, found⟩
    exact ⟨c, member, v, found, rfl, rfl⟩

/-- The first candidate of the highest precedence: those before it come before it in precedence too, and none after it
comes after it. -/
def FirstBest (list : List (Version × α)) (best : Version × α) : Prop :=
  ∃ before after, list = before ++ best :: after ∧ (∀ e ∈ before, e.1.precedence best.1 = .lt) ∧
    ∀ e ∈ after, (e.1.precedence best.1).isLE

namespace FirstBest

variable {list : List (Version × α)} {best d e : Version × α}

theorem mem (h : FirstBest list best) : best ∈ list := by
  obtain ⟨before, after, rfl, -, -⟩ := h
  exact List.mem_append_right before List.mem_cons_self

theorem isLE (h : FirstBest list best) (member : e ∈ list) : (e.1.precedence best.1).isLE := by
  obtain ⟨before, after, rfl, lower, notHigher⟩ := h
  rcases List.mem_append.mp member with earlier | later
  · rw [lower e earlier]
    rfl
  · rcases List.mem_cons.mp later with rfl | later
    · exact ReflCmp.isLE_rfl
    · exact notHigher e later

/-- A candidate in front that comes before the best one changes nothing. -/
theorem cons (h : FirstBest list best) (lower : d.1.precedence best.1 = .lt) : FirstBest (d :: list) best := by
  obtain ⟨before, after, rfl, others, notHigher⟩ := h
  exact ⟨d :: before, after, rfl, List.forall_mem_cons.mpr ⟨lower, others⟩, notHigher⟩

/-- Neither does one right after the first candidate that does not come after that one. -/
theorem insert (h : FirstBest (e :: list) best) (notHigher : (d.1.precedence e.1).isLE) :
    FirstBest (e :: d :: list) best := by
  obtain ⟨before, after, split, lower, others⟩ := h
  cases before with
  | nil =>
      cases split
      exact ⟨[], d :: list, rfl, nofun, List.forall_mem_cons.mpr ⟨notHigher, others⟩⟩
  | cons first before =>
      cases split
      obtain ⟨below, rest⟩ := List.forall_mem_cons.mp lower
      have low : d.1.precedence best.1 = .lt := TransCmp.lt_of_isLE_of_lt notHigher below
      exact ⟨e :: d :: before, after, rfl,
        List.forall_mem_cons.mpr ⟨below, List.forall_mem_cons.mpr ⟨low, rest⟩⟩, others⟩

/-- Of two first candidates of the highest precedence none stands before the other. -/
theorem unique (h : FirstBest list best) (k : FirstBest list e) : best = e := by
  have notLess {x y : Version × α} (hx : FirstBest list x) (hy : y ∈ list) : x.1.precedence y.1 ≠ .lt := by
    have bound := hx.isLE hy
    have turned : y.1.precedence x.1 = (x.1.precedence y.1).swap := OrientedCmp.eq_swap
    rw [turned] at bound
    intro less
    rw [less] at bound
    cases bound
  obtain ⟨before, after, split, lower, -⟩ := id h
  obtain ⟨before', after', split', lower', -⟩ := id k
  rcases List.append_eq_append_iff.mp (split.symm.trans split') with ⟨gap, here, there⟩ | ⟨gap, here, there⟩
  · cases gap with
    | nil => exact (List.cons.inj there).1
    | cons first gap =>
        cases there
        exact absurd (lower' best (by rw [here]; simp)) (notLess h k.mem)
  · cases gap with
    | nil => exact (List.cons.inj there).1.symm
    | cons first gap =>
        cases there
        exact absurd (lower e (by rw [here]; simp)) (notLess k h.mem)

end FirstBest

theorem firstBest_bestFrom (best : Version × α) (rest : List (Version × α)) :
    FirstBest (best :: rest) (bestFrom best rest) := by
  induction rest generalizing best with
  | nil => exact ⟨[], [], rfl, nofun, nofun⟩
  | cons c rest ih =>
      rw [bestFrom]
      split
      case isTrue later =>
        have below : best.1.precedence c.1 = .lt := OrientedCmp.lt_of_gt (beq_iff_eq.mp later)
        exact (ih c).cons (TransCmp.lt_of_lt_of_isLE below ((ih c).isLE List.mem_cons_self))
      case isFalse early =>
        have notHigher : (c.1.precedence best.1).isLE :=
          Ordering.isLE_iff_ne_gt.mpr fun later => early (beq_iff_eq.mpr later)
        exact (ih best).insert notHigher

theorem best?_eq_none_iff {list : List (Version × α)} : best? list = none ↔ list = [] := by
  cases list <;> simp [best?]

theorem best?_eq_some_iff {list : List (Version × α)} : best? list = some c ↔ ∃ v, FirstBest list (v, c) := by
  cases list with
  | nil =>
      refine ⟨nofun, ?_⟩
      rintro ⟨v, h⟩
      cases h.mem
  | cons best rest =>
      have chosen := firstBest_bestFrom best rest
      constructor
      · intro h
        cases h
        exact ⟨_, chosen⟩
      · rintro ⟨v, h⟩
        rw [best?, chosen.unique h]

theorem best?_eq_some {list : List (Version × α)} (h : best? list = some c) :
    ∃ v, (v, c) ∈ list ∧ ∀ e ∈ list, (e.1.precedence v).isLE := by
  obtain ⟨v, first⟩ := best?_eq_some_iff.mp h
  exact ⟨v, first.mem, fun e member => first.isLE member⟩

variable {req : Requirement}

theorem latestMeeting?_eq_none_iff :
    latestMeeting? read req candidates = none ↔
      ∀ c ∈ candidates, ∀ v, read c = some v → req.admits v = false := by
  rw [latestMeeting?, best?_eq_none_iff, List.filter_eq_nil_iff]
  constructor
  · intro h c member v found
    exact eq_false_of_ne_true (h (v, c) (mem_readable.mpr ⟨member, found⟩))
  · intro h e member
    have found := mem_readable.mp member
    exact ne_true_of_eq_false (h e.2 found.1 e.1 found.2)

theorem latestMeeting?_eq_some (h : latestMeeting? read req candidates = some c) :
    c ∈ candidates ∧ ∃ v, read c = some v ∧ req.admits v = true ∧
      ∀ c' ∈ candidates, ∀ v', read c' = some v' → req.admits v' = true → (v'.precedence v).isLE := by
  obtain ⟨v, member, highest⟩ := best?_eq_some h
  have met := List.mem_filter.mp member
  have found := mem_readable.mp met.1
  refine ⟨found.1, v, found.2, met.2, ?_⟩
  intro c' member' v' found' met'
  exact highest (v', c') (List.mem_filter.mpr ⟨mem_readable.mpr ⟨member', found'⟩, met'⟩)

theorem latest?_eq_some (h : latest? read candidates = some c) :
    c ∈ candidates ∧ ∃ v, read c = some v ∧
      ∀ c' ∈ candidates, ∀ v', read c' = some v' → (v'.precedence v).isLE := by
  obtain ⟨v, member, highest⟩ := best?_eq_some h
  have found := mem_readable.mp member
  exact ⟨found.1, v, found.2, fun c' member' v' found' =>
    highest (v', c') (mem_readable.mpr ⟨member', found'⟩)⟩

/-- A candidate that meets the requirement is chosen, or one that meets it and does not come before it. -/
theorem latestMeeting?_of_mem (member : c ∈ candidates) (found : read c = some v) (met : req.admits v = true) :
    ∃ c' v', latestMeeting? read req candidates = some c' ∧ read c' = some v' ∧ req.admits v' = true ∧
      (v.precedence v').isLE := by
  cases chosen : latestMeeting? read req candidates with
  | none =>
      have unmet := latestMeeting?_eq_none_iff.mp chosen c member v found
      exact absurd met (ne_true_of_eq_false unmet)
  | some c' =>
      obtain ⟨_, v', found', met', highest⟩ := latestMeeting?_eq_some chosen
      exact ⟨c', v', rfl, found', met', highest c member v found met⟩

theorem latest?_of_mem (member : c ∈ candidates) (found : read c = some v) :
    ∃ c' v', latest? read candidates = some c' ∧ c' ∈ candidates ∧ read c' = some v' ∧
      (v.precedence v').isLE := by
  cases chosen : latest? read candidates with
  | none =>
      have candidate := mem_readable.mpr ⟨member, found⟩
      rw [best?_eq_none_iff.mp chosen] at candidate
      cases candidate
  | some c' =>
      obtain ⟨member', v', found', highest⟩ := latest?_eq_some chosen
      exact ⟨c', v', rfl, member', found', highest c member v found⟩

/-- The latest text always writes a version, be it the sentinel. -/
theorem ofText?_latestText (versions : List String) : ∃ v, ofText? (latestText versions) = some v := by
  cases h : latest? ofText? versions with
  | none =>
      rw [latestText, h]
      exact ⟨⟨0, 0, 0, [], []⟩, by decide⟩
  | some s =>
      rw [latestText, h]
      obtain ⟨_, v, found, _⟩ := latest?_eq_some h
      exact ⟨v, found⟩

end ExprRegistry.Version

namespace ExprRegistry.Requirement

theorem admitsJson_str (req : Requirement) (s : String) :
    req.admitsJson (.str s) = match Version.ofText? s with
      | none => false
      | some v => req.admits v := rfl

theorem admitsJson_str_iff {req : Requirement} {s : String} :
    req.admitsJson (.str s) = true ↔ ∃ v, Version.ofText? s = some v ∧ req.admits v = true := by
  rw [admitsJson_str]
  cases h : Version.ofText? s <;> simp

end ExprRegistry.Requirement
