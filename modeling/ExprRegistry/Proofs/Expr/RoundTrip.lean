import ExprRegistry.Expr.ReadBack
import ExprRegistry.Proofs.Expr.WellFormed

/-!
Writing terms and reading them back. Main statement: exactly the well-formed terms come back as they are,
and all that is read is well-formed.
-/

namespace ExprRegistry

theorem bind_eq_ok_iff {ε α β : Type} {x : Except ε α} {f : α → Except ε β} {b : β} :
    x >>= f = .ok b ↔ ∃ a, x = .ok a ∧ f a = .ok b := by
  cases x <;> simp [bind, Except.bind]

namespace Expr

variable {v : Json} {vs : List Json} {e : Expr}

/-! ### Documents of terms -/

/-- An item of a vector is written as its document, or as it is. -/
def WritesItem (e : Expr) (v : Json) : Prop := e = raw v ∨ encode e = .ok v

/-- The document of a branch holds its pattern and the document of its result. -/
def WritesBranch (b : Json × Expr) (v : Json) : Prop :=
  ∃ result, encode b.2 = .ok result ∧ v = .obj [("pattern", b.1), ("result", result)]

theorem encodeItems_eq_ok_iff {es : List Expr} :
    encodeItems es = .ok vs ↔ List.Forall₂ WritesItem es vs := by
  induction es generalizing vs with
  | nil => simp [encodeItems, eq_comm]
  | cons e rest ih =>
      rw [List.forall₂_cons_left_iff]
      cases e <;>
        simp [encodeItems, WritesItem, bind_eq_ok_iff, Misplaced.both_eq_ok_iff, ih, encode, pure,
          Except.pure, and_assoc, @eq_comm _ vs]

theorem encodeBranches_eq_ok_iff {branches : List (Json × Expr)} :
    encodeBranches branches = .ok vs ↔ List.Forall₂ WritesBranch branches vs := by
  induction branches generalizing vs with
  | nil => simp [encodeBranches, eq_comm]
  | cons b rest ih =>
      rw [List.forall₂_cons_left_iff]
      simp [encodeBranches, WritesBranch, bind_eq_ok_iff, Misplaced.both_eq_ok_iff, ih, pure, Except.pure,
        and_assoc, @eq_comm _ vs]

/-! ### What is sent -/

/-- What stands for an item of a vector on the way. -/
def blankedItem : Expr → Expr
  | branch _ _ => raw .null
  | e => blanked e

theorem blankedItems_eq_map (items : List Expr) : blankedItems items = items.map blankedItem := by
  induction items with
  | nil => rfl
  | cons e rest ih => cases e <;> simp [blankedItems, blankedItem, ih]

theorem blankedResults_eq_map (branches : List (Json × Expr)) :
    blankedResults branches = branches.map fun b => (b.1, b.2.blanked) := by
  induction branches with
  | nil => rfl
  | cons b rest ih => simp [blankedResults, ih]

theorem blankedItem_of_isExpression (h : e.isExpression = true) : blankedItem e = e.blanked := by
  cases e <;> first | rfl | cases h

theorem isExpression_blanked (e : Expr) : e.blanked.isExpression = e.isExpression := by
  cases e with
  | application f argument => cases argument <;> rfl
  | _ => rfl

/-- A term is well-formed if what is sent for it is. -/
theorem wellFormed_of_blanked (h : e.blanked.WellFormed) : e.WellFormed := by
  induction e using induct with
  | literal v => exact h
  | reference name => exact h
  | vector items ih =>
      rw [blanked, blankedItems_eq_map] at h
      cases h with
      | vector expressions values =>
          refine .vector (fun f member expression => ih f member ?_) fun parts member => ?_
          · rw [← blankedItem_of_isExpression expression]
            refine expressions _ (List.mem_map_of_mem member) ?_
            rwa [blankedItem_of_isExpression expression, isExpression_blanked]
          · exact values parts (List.mem_map_of_mem (f := blankedItem) member)
  | application f argument ih ihArgument =>
      cases argument with
      | none =>
          cases h with
          | application function _ => exact .application (ih function) nofun
      | some a =>
          cases h with
          | application function argument =>
              refine .application (ih function) fun b same => ihArgument b same ?_
              cases same
              exact argument _ rfl
  | lambda params body ih =>
      cases h with
      | lambda named read => exact .lambda named (ih read)
  | fixpoint inner ih =>
      cases h with
      | fixpoint read => exact .fixpoint (ih read)
  | cases scrutinee branches ih ihResult =>
      rw [blanked, blankedResults_eq_map] at h
      cases h with
      | cases read shaped results =>
          refine .cases (ih read) (fun b member => ?_) fun b member => ihResult b member ?_
          · exact shaped (b.1, b.2.blanked) (List.mem_map.mpr ⟨b, member, rfl⟩)
          · exact results (b.1, b.2.blanked) (List.mem_map.mpr ⟨b, member, rfl⟩)
  | raw v => exact h
  | branch pattern result => exact h

theorem blankedItem_of_writesItem (h : WritesItem e v) (same : encode e = .ok v → e.blanked = e) :
    blankedItem e = e := by
  cases e with
  | raw w => rfl
  | branch pattern result => rcases h with h | h <;> cases h
  | _ =>
      rcases h with h | h
      · cases h
      · exact same h

/-- What has a document is sent as it is. -/
theorem blanked_of_encode (h : encode e = .ok v) : e.blanked = e := by
  induction e using induct generalizing v with
  | literal w => rfl
  | reference name => rfl
  | vector items ih =>
      obtain ⟨vs, written, _⟩ := bind_eq_ok_iff.mp h
      have same := map_eq_self_of_forall₂ (encodeItems_eq_ok_iff.mp written) fun f member w item =>
        blankedItem_of_writesItem item (ih f member)
      rw [blanked, blankedItems_eq_map, same]
  | application f argument ih ihArgument =>
      cases argument with
      | none =>
          obtain ⟨w, written, _⟩ := bind_eq_ok_iff.mp h
          rw [blanked, ih written]
      | some a =>
          obtain ⟨both, written, _⟩ := bind_eq_ok_iff.mp h
          obtain ⟨function, argument⟩ := Misplaced.both_eq_ok_iff.mp written
          rw [blanked, ih function, ihArgument a rfl argument]
  | lambda params body ih =>
      obtain ⟨w, written, _⟩ := bind_eq_ok_iff.mp h
      rw [blanked, ih written]
  | fixpoint inner ih =>
      obtain ⟨w, written, _⟩ := bind_eq_ok_iff.mp h
      rw [blanked, ih written]
  | cases scrutinee branches ih ihResult =>
      obtain ⟨both, written, _⟩ := bind_eq_ok_iff.mp h
      obtain ⟨written, results⟩ := Misplaced.both_eq_ok_iff.mp written
      have same : (branches.map fun b => (b.1, b.2.blanked)) = branches := by
        refine map_eq_self_of_forall₂ (encodeBranches_eq_ok_iff.mp results) ?_
        rintro b member _ ⟨w, item, _⟩
        rw [ihResult b member item]
      rw [blanked, blankedResults_eq_map, ih written, same]
  | raw w => cases h
  | branch pattern result => cases h

/-! ### There and back -/

theorem exists_document_of_item (values : ∀ parts, e = raw (.obj parts) → Json.field? parts "g" = none)
    (expressions : e.isExpression = true → ∃ v, e.blanked.encode = .ok v ∧ decode v = .ok e.blanked) :
    ∃ v, WritesItem (blankedItem e) v ∧ ReadingItem Reads v (blankedItem e) := by
  rcases isExpression_cases e with expression | ⟨v, rfl⟩ | ⟨pattern, result, rfl⟩
  · rw [blankedItem_of_isExpression expression]
    obtain ⟨v, written, read⟩ := expressions expression
    exact ⟨v, .inr written, .expression (isTagged_of_decode read) read⟩
  · refine ⟨v, .inl rfl, .value (Json.isTagged_eq_false_iff.mpr ?_)⟩
    rintro parts rfl
    exact values parts rfl
  · exact ⟨.null, .inl rfl, .value rfl⟩

/-- What is sent for a well-formed term has a document, and is what that document is read as. -/
theorem WellFormed.exists_document (h : e.WellFormed) :
    ∃ v, e.blanked.encode = .ok v ∧ decode v = .ok e.blanked := by
  induction h with
  | literal notObject => exact ⟨_, rfl, decode_of_reading (.literal ⟨rfl, rfl⟩ notObject)⟩
  | reference named => exact ⟨_, rfl, decode_of_reading (.reference ⟨rfl, rfl⟩ named)⟩
  | @vector items expressions values ih =>
      have each (e : Expr) (sent : e ∈ items.map blankedItem) :
          ∃ v, WritesItem e v ∧ ReadingItem Reads v e := by
        obtain ⟨f, member, rfl⟩ := List.mem_map.mp sent
        refine exists_document_of_item ?_ (ih f member)
        rintro parts rfl
        exact values parts member
      obtain ⟨vs, written, read⟩ := exists_forall₂_both each
      rw [blanked, blankedItems_eq_map]
      refine ⟨tagged .vector (.arr vs), ?_, decode_of_reading (.vector ⟨rfl, rfl⟩ read)⟩
      rw [encode, encodeItems_eq_ok_iff.mpr written]
      rfl
  | @application f argument function _ ih ihArgument =>
      obtain ⟨v, written, read⟩ := ih
      cases argument with
      | none =>
          refine ⟨tagged .application (.obj [("fn", v)]), ?_,
            decode_of_reading (.partialApplication ⟨rfl, rfl⟩ rfl read rfl)⟩
          rw [blanked, encode, written]
          rfl
      | some a =>
          obtain ⟨w, writtenArgument, readArgument⟩ := ihArgument a rfl
          have given : w ≠ .null := by
            rintro rfl
            cases readArgument
          refine ⟨tagged .application (.obj [("fn", v), ("args", w)]), ?_,
            decode_of_reading (.application ⟨rfl, rfl⟩ rfl read rfl given readArgument)⟩
          rw [blanked, encode, written, writtenArgument]
          rfl
  | @lambda params body named _ ih =>
      obtain ⟨v, written, read⟩ := ih
      refine ⟨tagged .lambda (.obj [("params", .arr params), ("body", v)]), ?_,
        decode_of_reading (.lambda ⟨rfl, rfl⟩ rfl named rfl read)⟩
      rw [blanked, encode, written]
      rfl
  | fixpoint _ ih =>
      obtain ⟨v, written, read⟩ := ih
      refine ⟨tagged .fixpoint v, ?_, decode_of_reading (.fixpoint ⟨rfl, rfl⟩ read)⟩
      rw [blanked, encode, written]
      rfl
  | @cases scrutinee branches _ shaped _ ih ihResult =>
      obtain ⟨v, written, read⟩ := ih
      have each (b : Json × Expr) (sent : b ∈ branches.map fun b => (b.1, b.2.blanked)) :
          ∃ w, WritesBranch b w ∧ ReadingBranch Reads w b := by
        obtain ⟨c, member, rfl⟩ := List.mem_map.mp sent
        obtain ⟨w, writtenResult, readResult⟩ := ihResult c member
        exact ⟨_, ⟨w, writtenResult, rfl⟩, .mk rfl (shaped c member) rfl readResult⟩
      obtain ⟨vs, writtenBranches, readBranches⟩ := exists_forall₂_both each
      rw [blanked, blankedResults_eq_map]
      refine ⟨tagged .cases (.obj [("expr", v), ("branches", .arr vs)]), ?_,
        decode_of_reading (.cases ⟨rfl, rfl⟩ rfl read rfl readBranches)⟩
      rw [encode, written, encodeBranches_eq_ok_iff.mpr writtenBranches]
      rfl

theorem isReadBack_eq_ok_true_iff :
    e.isReadBack = .ok true ↔ ∃ v, e.blanked.encode = .ok v ∧ decode v = .ok e.blanked := by
  rw [isReadBack, readBack, map_eq_ok_iff]
  cases e.blanked.encode with
  | error m => simp
  | ok v => simp [mapError_eq_ok_iff]

theorem wellFormed_iff_isReadBack : e.WellFormed ↔ e.isReadBack = .ok true := by
  rw [isReadBack_eq_ok_true_iff]
  constructor
  · exact WellFormed.exists_document
  · rintro ⟨v, _, read⟩
    exact wellFormed_of_blanked (wellFormed_of_decode read)

/-- A term has a document that is read as the term itself when it is well-formed and no branch has to be
replaced on the way. -/
theorem decode_encode_iff :
    (∃ v, e.encode = .ok v ∧ decode v = .ok e) ↔ e.WellFormed ∧ e.blanked = e := by
  constructor
  · rintro ⟨v, written, read⟩
    exact ⟨wellFormed_of_decode read, blanked_of_encode written⟩
  · rintro ⟨h, same⟩
    have sent := h.exists_document
    rwa [same] at sent

end Expr

/-- Reading undoes writing on the well-formed terms and on no others, and it returns no others. -/
theorem decode_undoes_encode :
    (∀ e : Expr, e.WellFormed ↔ e.isReadBack = .ok true) ∧
    (∀ e : Expr, (∃ v, e.encode = .ok v ∧ Expr.decode v = .ok e) ↔ e.WellFormed ∧ e.blanked = e) ∧
    ∀ (v : Json) (e : Expr), Expr.decode v = .ok e → e.WellFormed :=
  ⟨fun _ => Expr.wellFormed_iff_isReadBack, fun _ => Expr.decode_encode_iff,
    fun _ _ => Expr.wellFormed_of_decode⟩

/-- A match on a vector of a reference and an opaque value, in which a partial application has keys that no
form has. -/
def matchDocument : Json :=
  Expr.tagged .cases (.obj [
    ("expr", Expr.tagged .vector (.arr [Expr.tagged .reference (.str "ready?"), .obj [("h", .int 1)]])),
    ("branches", .arr [.obj [("pattern", .str "else"),
      ("result", Expr.tagged .application (.obj [("note", .null), ("args", .null),
        ("fn", Expr.tagged .lambda (.obj [("body", Expr.tagged .literal (.arr [])),
          ("params", .arr [.str "x"])]))]))]])])

/-- The term of `matchDocument`. -/
def matchTerm : Expr :=
  .cases (.vector [.reference (.str "ready?"), .raw (.obj [("h", .int 1)])])
    [(.str "else", .application (.lambda [.str "x"] (.literal (.arr []))) none)]

theorem decode_undoes_encode_match :
    Expr.decode matchDocument = .ok matchTerm ∧ matchTerm.WellFormed ∧
      matchTerm.isReadBack = .ok true := by
  have read : Expr.decode matchDocument = .ok matchTerm := rfl
  have formed := decode_undoes_encode.2.2 matchDocument matchTerm read
  exact ⟨read, formed, (decode_undoes_encode.1 matchTerm).mp formed⟩

end ExprRegistry
