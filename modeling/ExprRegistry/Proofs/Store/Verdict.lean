import ExprRegistry.Proofs.Expr.RoundTrip
import ExprRegistry.Proofs.Expr.Shown
import ExprRegistry.Proofs.Json.TextKeyed
import ExprRegistry.Proofs.Store.Effect

/-!
One verdict on a document. A document is checked, mended, analysed and published by different functions, each of
which reads it on its own. Main statement: they all accept the same documents and refuse the others for the same
fault, save that what is published must have a checksum, and the analysis is of the term, not of the document or the
way in which it was written.
-/

namespace ExprRegistry

variable {v w : Json} {e : Expr}

theorem decode_literal (notObject : ∀ parts, v ≠ .obj parts) :
    Expr.decode (Expr.tagged .literal v) = .ok (.literal v) := Expr.decode_of_reading (.literal ⟨rfl, rfl⟩ notObject)

/-! ### Analyses -/

theorem exists_analysis_iff : (∃ a, Analysis.ofJson v = .ok a) ↔ ∃ e, Expr.decode v = .ok e := by
  constructor
  · rintro ⟨a, made⟩
    cases read : Expr.decode v with
    | ok e => exact ⟨e, rfl⟩
    | error e =>
        rw [analysis_of_refused read] at made
        cases made
  · rintro ⟨e, read⟩
    obtain ⟨a, made, _⟩ := exists_analysis read
    exact ⟨a, made⟩

/-- The analysis of a document is that of the term it is read as. -/
theorem ofJson_of_decode (h : Expr.decode v = .ok e) : Analysis.ofJson v = Analysis.ofExpr e := by
  rw [Analysis.ofJson, h]

/-- The analysis of a term is that of its document. -/
theorem ofTerm_of_encode (h : e.encode = .ok w) : Analysis.ofTerm e = Analysis.ofJson w := by
  cases e with
  | raw v => cases h
  | branch pattern result => cases h
  | _ => simp only [Analysis.ofTerm, h]

/-- What was read can be written, and what is written is read as the same term. -/
theorem exists_document_of_decode (h : Expr.decode v = .ok e) : ∃ w, e.encode = .ok w ∧ Expr.decode w = .ok e := by
  obtain ⟨w, written, _⟩ := Expr.rewritten_of_decode h
  exact Expr.decode_encode_iff.mpr ⟨Expr.wellFormed_of_decode h, Expr.blanked_of_encode written⟩

/-- A document, its term and the document of the term have one analysis. -/
theorem exists_common_analysis (h : Expr.decode v = .ok e) :
    ∃ a w, e.encode = .ok w ∧ Analysis.ofTerm (.raw v) = .ok a ∧ Analysis.ofTerm e = .ok a ∧
      Analysis.ofTerm (.raw w) = .ok a := by
  obtain ⟨a, made, _⟩ := exists_analysis h
  obtain ⟨w, written, read⟩ := exists_document_of_decode h
  have again : Analysis.ofJson w = .ok a := by
    rw [ofJson_of_decode read, ← ofJson_of_decode h, made]
  exact ⟨a, w, written, made, (ofTerm_of_encode written).trans again, again⟩

/-! ### Publication -/

namespace Store

variable {store : Store} {k : Scalar} {p : Package} {text : String}

/-- The data of a release is checked after its version and before anything else. -/
theorem addVersion_of_refused {name : Json} {fault : Invalid} (written : IsVersionText text)
    (refused : Expr.decode v = .error fault) :
    (store.perform (.addVersion name (.str text) v)).answer = .error (.refused (.expression fault)) := by
  simp [perform, Store.addVersion, isVersionText_iff.mpr written, refused]

/-- An expression without a checksum is not published. -/
theorem addVersion_of_undigested (store : Store) (name : Json) {how : Unfit} (written : IsVersionText text)
    (read : Expr.decode v = .ok e) (undigested : v.checksum = .error how) :
    (store.perform (.addVersion name (.str text) v)).answer = .error (.unfit how) := by
  simp [perform, Store.addVersion, isVersionText_iff.mpr written, read, undigested]

theorem exists_addVersion_iff (keyed : v.TextKeyed) (found : Table.get? k store = some p)
    (written : IsVersionText text) (new : p.release? (.str text) = none) :
    (∃ answer, (store.perform (.addVersion (.scalar k) (.str text) v)).answer = .ok answer) ↔
      (∃ e, Expr.decode v = .ok e) ∧ v.hasText = true ∧ v.isWhole = true := by
  rw [← keyed.exists_checksum_iff]
  constructor
  · rintro ⟨answer, published⟩
    have effect := effect_of_perform published
    generalize (store.perform (.addVersion (.scalar k) (.str text) v)).store = after at effect
    cases effect with
    | addVersion _ _ valid digest _ => exact ⟨valid, _, digest⟩
  · rintro ⟨valid, digest, digested⟩
    exact ⟨_, (perform_of_effect (.addVersion found written valid digested new)).2⟩

/-- One verdict on a document, whoever is asked: the check, the hints, the analysis, and the publication under a version
that is free, which needs a text as well, and one that can be encoded. A refusal has the same report everywhere, or
its message cannot be written, and then all of them fail alike; and what is accepted has one analysis, be it asked of
the document, of its term or of the document of that term. -/
theorem verdicts_agree (keyed : v.TextKeyed) (found : Table.get? k store = some p)
    (written : IsVersionText text) (new : p.release? (.str text) = none) :
    (v.isValid = .ok true ↔ ∃ e, Expr.decode v = .ok e) ∧
    (v.fixes = .ok [] ↔ ∃ e, Expr.decode v = .ok e) ∧
    ((∃ a, Analysis.ofTerm (.raw v) = .ok a) ↔ ∃ e, Expr.decode v = .ok e) ∧
    ((∃ answer, (store.perform (.addVersion (.scalar k) (.str text) v)).answer = .ok answer) ↔
      (∃ e, Expr.decode v = .ok e) ∧ v.hasText = true ∧ v.isWhole = true) ∧
    (∀ fault, Expr.decode v = .error fault → fault.fault.hasMessage = true →
      Analysis.ofTerm (.raw v) = .error (.invalid fault) ∧
      ∃ refusal : ValidationError, refusal.report = fault.report ∧
        (store.perform (.addVersion (.scalar k) (.str text) v)).answer = .error (.invalid refusal)) ∧
    (∀ fault, Expr.decode v = .error fault → fault.fault.hasMessage = false →
      v.isValid = .error .value ∧ v.fixes = .error .value ∧ Analysis.ofTerm (.raw v) = .error (.unfit .value) ∧
        (store.perform (.addVersion (.scalar k) (.str text) v)).answer = .error (.unfit .value)) ∧
    ∀ e, Expr.decode v = .ok e →
      ∃ a w, e.encode = .ok w ∧ Analysis.ofTerm (.raw v) = .ok a ∧ Analysis.ofTerm e = .ok a ∧
        Analysis.ofTerm (.raw w) = .ok a := by
  refine ⟨isValid_eq_true_iff, fixes_eq_nil_iff, exists_analysis_iff, exists_addVersion_iff keyed found written new,
    fun fault refused told => ?_, fun fault refused silent => ?_, fun e read => exists_common_analysis read⟩
  · refine ⟨(analysis_of_refused refused).trans ?_, .expression fault, rfl, ?_⟩
    · rw [TermError.refused_of_told told]
    · rw [addVersion_of_refused written refused, StoreError.refused_of_told (e := .expression fault) told]
  · refine ⟨?_, ?_, (analysis_of_refused refused).trans ?_, ?_⟩
    · rw [isValid_of_refused refused, silent, if_neg Bool.false_ne_true]
    · rw [fixes_of_refused refused, silent, if_neg Bool.false_ne_true]
    · rw [TermError.refused_of_silent silent]
    · rw [addVersion_of_refused written refused, StoreError.refused_of_silent (e := .expression fault) silent]

/-- A store of one package without releases. -/
def emptyLogic : Store := [(.str "logic", ⟨.str "logic", [], [], .null, .null⟩)]

/-- A vector whose item, a partial application, has a note and a null argument. -/
def notedDocument : Json :=
  Expr.tagged .vector (.arr [.obj [("note", .str "seen"), ("g", .str "app"),
    ("v", .obj [("args", .null), ("fn", Expr.tagged .reference (.str "and"))])]])

theorem verdicts_agree_noted :
    notedDocument.fixes = .ok [] ∧
      ∃ answer, (emptyLogic.perform (.addVersion (.str "logic") (.str "1.0.0") notedDocument)).answer = .ok answer := by
  have keyed : notedDocument.TextKeyed :=
    .cons "g" (.scalar _) (.cons "v" (.arr (List.forall_mem_singleton.mpr
      (.cons "note" (.scalar _) (.cons "g" (.scalar _) (.cons "v" (.cons "args" (.scalar _)
        (.cons "fn" (.cons "g" (.scalar _) (.cons "v" (.scalar _) .empty)) .empty)) .empty))))) .empty)
  have written : IsVersionText "1.0.0" := isVersionText_iff.mp (by decide)
  have found : Table.get? (.str "logic") emptyLogic = some ⟨.str "logic", [], [], .null, .null⟩ := rfl
  have agree := verdicts_agree keyed found written rfl
  have valid : ∃ e, Expr.decode notedDocument = .ok e := agree.1.mp rfl
  exact ⟨agree.2.1.mpr valid, agree.2.2.2.1.mpr ⟨valid, rfl, rfl⟩⟩

/-- A text that is nothing but the first half of a character. -/
def tornText : Json := .text (.torn "" 0 "")

/-- A number of so many digits that it has no text. -/
def longNumber : Json := .int (Nat.pow 10 Text.maxDigits : Nat)

theorem literal_scalar_textKeyed (value : Scalar) : (Expr.tagged .literal (.scalar value)).TextKeyed :=
  .cons "g" (.scalar _) (.cons "v" (.scalar _) .empty)

theorem checksum_tornText : (Expr.tagged .literal tornText).checksum = .error .encoding :=
  (literal_scalar_textKeyed _).checksum_eq_error (.torn rfl rfl)

theorem checksum_longNumber : (Expr.tagged .literal longNumber).checksum = .error .value :=
  (literal_scalar_textKeyed _).checksum_eq_error (.overlong (by decide +kernel))

/-- A document that everyone accepts, and that is still not published. -/
structure Withheld (store : Store) (k : Scalar) (text : String) (v : Json) : Prop where
  keyed : v.TextKeyed
  valid : ∃ e, Expr.decode v = .ok e
  isValid : v.isValid = .ok true
  unhinted : v.fixes = .ok []
  unpublished : ¬ ∃ answer, (store.perform (.addVersion (.scalar k) (.str text) v)).answer = .ok answer

theorem literal_withheld {value : Scalar} {how : Unfit} (written : IsVersionText text)
    (undigested : (Expr.tagged .literal (.scalar value)).checksum = .error how) :
    store.Withheld k text (Expr.tagged .literal (.scalar value)) := by
  have read : Expr.decode (Expr.tagged .literal (.scalar value)) = .ok (.literal (.scalar value)) :=
    decode_literal nofun
  refine ⟨literal_scalar_textKeyed value, ⟨_, read⟩, isValid_eq_true_iff.mpr ⟨_, read⟩,
    fixes_eq_nil_iff.mpr ⟨_, read⟩, ?_⟩
  rw [addVersion_of_undigested store _ written read undigested]
  rintro ⟨_, ⟨⟩⟩

theorem unwritable_unpublished : ∃ (store : Store) (p : Package),
    Table.get? (.str "logic") store = some p ∧ IsVersionText "1.0.0" ∧ p.release? (.str "1.0.0") = none ∧
      store.Withheld (.str "logic") "1.0.0" (Expr.tagged .literal tornText) ∧
      store.Withheld (.str "logic") "1.0.0" (Expr.tagged .literal longNumber) := by
  have written : IsVersionText "1.0.0" := isVersionText_iff.mp (by decide)
  exact ⟨emptyLogic, _, rfl, written, rfl, literal_withheld written checksum_tornText,
    literal_withheld written checksum_longNumber⟩

end Store

end ExprRegistry
