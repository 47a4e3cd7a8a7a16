import ExprRegistry.Proofs.Resolve.Agreement

/-!
Requirements beside the package that declares them. A resolution of requirements starts with no path and no
pins, so it may come to the package itself; but then the package is on a cycle, and both resolutions fail.
Both succeed exactly where there is one coherent unfolding, and pin what it selects. Main statement:
`resolve_agrees_with_requirements`.
-/

namespace ExprRegistry

namespace Lookup

variable {lookup : Lookup} {path : List Scalar} {deps walk : Fields} {s s' : Progress} {name root : Scalar}
  {package : Package}

/-- A walk that ends without a failure has gone through a coherent unfolding, if nothing of it was pinned
before. -/
theorem Walk.coherent (hl : lookup.ByName) (u : lookup.Unfolds deps walk)
    (w : lookup.Walk path deps s s' none) (finished : lookup.Finished path s.pins)
    (fresh : ∀ e ∈ walk, s.pins.get? e.1 = none) {first : Scalar → Prop}
    (settled : lookup.Resolution first s'.pins)
    (stored : ∀ e ∈ walk, ∀ version, s'.pins.get? e.1 = some version → lookup.Stores e.1 version) :
    lookup.Coherent deps walk := by
  have met : ∀ e ∈ walk, Met s'.pins e.1 e.2 :=
    u.edges (Met s'.pins) (fun d _ here d' q declared => settled.met d d' q here.has declared)
      fun e member => (w.met rfl e member).2
  refine ⟨u, fun e member => ?_, fun e member => (met e member).congr ?_⟩
  · obtain ⟨_, _, _, selects, _⟩ := choice_of_met (met e member) (stored e member)
    exact Option.isSome_of_eq_some selects
  · rw [(w.pins_of_unfolds hl u finished).1, Table.get?_extend, fresh e member, Option.none_or]

theorem exists_coherent_of_root (hl : lookup.ByName) {bound : Nat} (few : lookup.AtMost bound)
    (found : lookup root = some package) (same : (name == root) = true)
    (w : lookup.Walk [name] package.dependencies (.ofRoot root name package) s none) :
    ∃ walk, lookup.Coherent package.dependencies walk := by
  obtain ⟨walk, u, _⟩ := w.unfolds_of_root hl few found same
  refine ⟨walk, w.coherent hl u (finished_ofRoot root name package)
    (u.fresh_root hl ((hl.same same).trans found) root) (w.resolution_of_root hl found same)
    fun e member version pinned => ?_⟩
  have other : (e.1 == root) = false := BEq.comm.trans (u.apart hl found e member)
  exact w.stores_of_root hl same other pinned

theorem reachable_of_transGen (found : lookup root = some package) {n : Scalar}
    (reached : Relation.TransGen lookup.DependsOn root n) :
    lookup.Reachable (fun n => Table.has n package.dependencies = true) n := by
  induction reached with
  | single edge =>
      obtain ⟨d, q, ⟨package', found', member⟩, same⟩ := edge
      cases found.symm.trans found'
      exact .start (Table.has_iff_mem.mpr ⟨(d, q), member, same⟩)
  | tail _ edge ih => exact .step ih edge

/-- A package whose dependencies can be resolved is on no cycle. -/
theorem exists_coherent_of_requirements (hl : lookup.ByName) {bound : Nat} (few : lookup.AtMost bound)
    (found : lookup root = some package) (w : lookup.Walk [] package.dependencies ⟨[], []⟩ s none) :
    ∃ walk, lookup.Coherent package.dependencies walk := by
  have settled : lookup.Resolution (fun n => Table.has n package.dependencies = true) s.pins :=
    w.resolution hl (fun a b hab ha => (Table.has_congr hab _).symm.trans ha) List.Pairwise.nil
      (fun _ => rfl) (fun _ pinned => nomatch pinned) (fun _ listed => .inr listed)
      fun e member => .start (Table.has_of_mem member)
  have stored (n : Scalar) (version : String) (pinned : s.pins.get? n = some version) :
      lookup.Stores n version := (w.stores hl n version pinned).resolve_left fun before => nomatch before
  have acyclic (p : Scalar) (reach : lookup.Reachable (fun n => (n == root) = true) p) :
      ¬ Relation.TransGen lookup.DependsOn p p := by
    intro cycle
    rcases (reachable_iff hl).mp reach with same | reached
    -- the root reaches itself, so it is one of the names that are settled
    · have around := transGen_congr_left hl same (transGen_congr_right same cycle)
      exact settled.acyclic root (reachable_of_transGen found around) around
    · exact settled.acyclic p (reachable_of_transGen found reached) cycle
  have complete (p : Scalar) (reach : lookup.Reachable (fun n => (n == root) = true) p) :
      (lookup p).isSome = true := by
    rcases (reachable_iff hl).mp reach with same | reached
    · rw [hl.same same, found, Option.isSome_some]
    · obtain ⟨version, pinned⟩ := Table.get?_of_has ((settled.keys p).mpr (reachable_of_transGen found reached))
      obtain ⟨_, found', _⟩ := stored p version pinned
      exact Option.isSome_of_eq_some found'
  obtain ⟨walk, u⟩ := exists_unfolds_of_acyclic hl few found acyclic complete
  exact ⟨walk, w.coherent hl u (finished_nil []) (fun _ _ => rfl) settled fun e _ => stored e.1⟩

end Lookup

variable {σ : Type} {src : Source σ} {state : σ} {lookup : Lookup} {root : Scalar} {package : Package}
  {walk : Fields}

theorem Source.Constant.resolve_of_coherent (hc : src.Constant state lookup)
    (finite : src.Finite state lookup) (found : lookup root = some package)
    (coherent : lookup.Coherent package.dependencies walk) {name : Scalar}
    (named : package.name = .scalar name) :
    (resolve src (.scalar root) state).2 =
      .ok ((name, Version.latestText package.versions) :: (lookup.choices walk).firsts) := by
  have hl := hc.toByName
  obtain ⟨name', named', same, ⟨_, infinite⟩ | ⟨s, out, w, answer, _⟩⟩ := hc.resolve_found found
  · exact absurd finite infinite
  cases named.symm.trans named'
  have foundName : lookup name = some package := (hl.same same).trans found
  cases out with
  | some failure =>
      exact absurd w (coherent.not_fails hl (coherent.unfolds.off_root hl foundName)
        (coherent.unfolds.fresh_root hl foundName root) (Lookup.finished_ofRoot root name package))
  | none =>
      rw [answer, Progress.answer, w.pins_of_root hl coherent.unfolds,
        coherent.unfolds.firsts_root hl foundName]

theorem Source.Constant.resolveRequirements_of_coherent (hc : src.Constant state lookup)
    (finite : src.Finite state lookup) {requirements : Fields}
    (coherent : lookup.Coherent requirements walk) :
    (resolveRequirements src requirements state).2 = .ok (lookup.choices walk).firsts := by
  have hl := hc.toByName
  obtain ⟨_, infinite⟩ | ⟨s, out, w, answer, _⟩ := hc.resolveRequirements_walks requirements
  · exact absurd finite infinite
  cases out with
  | some failure =>
      exact absurd w (coherent.not_fails hl (fun _ _ => rfl) (fun _ _ => rfl) (Lookup.finished_nil []))
  | none =>
      rw [answer, Progress.answer, (w.pins_of_unfolds hl coherent.unfolds (Lookup.finished_nil [])).1]
      rfl

/-- A package can be resolved exactly where its dependencies can be resolved as requirements that no package
declares. The package is not among what they are resolved to, and comes before it when it is resolved
itself. -/
theorem resolve_agrees_with_requirements (hc : src.Constant state lookup)
    (finite : src.Finite state lookup) (found : lookup root = some package) :
    ((∃ pins, (resolve src (.scalar root) state).2 = .ok pins) ↔
      ∃ pins, (resolveRequirements src package.dependencies state).2 = .ok pins) ∧
    ∀ pins, (resolveRequirements src package.dependencies state).2 = .ok pins →
      pins.has root = false ∧ ∃ name, package.name = .scalar name ∧ (name == root) = true ∧
        (resolve src (.scalar root) state).2 =
          .ok ((name, Version.latestText package.versions) :: pins) := by
  have hl := hc.toByName
  obtain ⟨name, named, same⟩ := hl.name_eq found
  have coherent_of_requirements (pins : Table Scalar String)
      (h : (resolveRequirements src package.dependencies state).2 = .ok pins) :
      ∃ walk, lookup.Coherent package.dependencies walk := by
    obtain ⟨s, _, w⟩ := hc.walk_of_resolveRequirements_ok h
    exact Lookup.exists_coherent_of_requirements hl finite found w
  refine ⟨⟨?_, ?_⟩, ?_⟩
  · rintro ⟨pins, h⟩
    obtain ⟨package', name', s, found', _, same', _, w⟩ := hc.walk_of_resolve_ok h
    cases found.symm.trans found'
    obtain ⟨walk, coherent⟩ := Lookup.exists_coherent_of_root hl finite found same' w
    exact ⟨_, hc.resolveRequirements_of_coherent finite coherent⟩
  · rintro ⟨pins, h⟩
    obtain ⟨walk, coherent⟩ := coherent_of_requirements pins h
    exact ⟨_, hc.resolve_of_coherent finite found coherent named⟩
  · intro pins h
    obtain ⟨walk, coherent⟩ := coherent_of_requirements pins h
    cases h.symm.trans (hc.resolveRequirements_of_coherent finite coherent)
    refine ⟨?_, name, named, same, hc.resolve_of_coherent finite found coherent named⟩
    rw [Table.has, Table.get?_firsts, ← Table.has, Lookup.has_choices]
    refine eq_false_of_ne_true fun met => ?_
    obtain ⟨e, member, back⟩ := Table.has_iff_mem.mp met
    rw [BEq.comm, coherent.unfolds.apart hl found e member] at back
    cases back

theorem resolve_agrees_with_requirements_diamond :
    (resolveRequirements Source.ofTable [("left", "~> 1.0"), ("right", ">= 1.0.0")] diamond).2 =
        .ok diamondPins.tail ∧
      Table.has (.str "app") diamondPins.tail = false ∧
      (resolve Source.ofTable (.str "app") diamond).2 = .ok (("app", "1.2.0") :: diamondPins.tail) := by
  have resolved : (resolveRequirements Source.ofTable [("left", "~> 1.0"), ("right", ">= 1.0.0")]
      diamond).2 = .ok diamondPins.tail := rfl
  obtain ⟨absent, name, named, _, resolvedRoot⟩ :=
    (resolve_agrees_with_requirements diamond_constant (Source.ofTable_finite diamond)
      (rfl : Lookup.ofTable diamond "app" = some _)).2 _ resolved
  cases named
  exact ⟨resolved, absent, resolvedRoot⟩

end ExprRegistry
