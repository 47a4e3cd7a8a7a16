import ExprRegistry.Cli.Run
import ExprRegistry.Proofs.Expr.Shown
import ExprRegistry.Proofs.Json.Written
import ExprRegistry.Proofs.Resolve.Worded
import ExprRegistry.Proofs.Store.Flaw

/-!
What commands print. The document of an output is regular and has no field for an error, while that of an error is
nothing but such a field, so whoever reads the printed document can tell them apart. Main statement: a command that
comes to an exit code leaves one document behind, which tells an error exactly when the command ended with one.
-/

namespace ExprRegistry

/-- An object with a field for an error. -/
def Json.TellsError (v : Json) : Prop := ∃ fields, v = .obj fields ∧ Json.hasField fields "error" = true

namespace Json

/-- A document that is read again keeps its keys. -/
theorem Reread.tellsError_iff {v w : Json} (h : Reread v w) : w.TellsError ↔ v.TellsError := by
  cases h with
  | scalar k => rfl
  | float x y => exact ⟨nofun, nofun⟩
  | arr _ => exact ⟨nofun, nofun⟩
  | @obj fields others keys _ =>
      have same : hasField others "error" = hasField fields "error" := by
        change Table.has (.str "error") others = Table.has (.str "error") fields
        rw [Bool.eq_iff_iff, Table.has_iff_keys, Table.has_iff_keys, keys]
      constructor
      · rintro ⟨_, ⟨⟩, told⟩
        exact ⟨fields, rfl, same ▸ told⟩
      · rintro ⟨_, ⟨⟩, told⟩
        exact ⟨others, rfl, same ▸ told⟩

end Json

namespace Cli

/-! ### Errors -/

theorem regular_described (kind message : String) : (CommandError.described kind message).Regular :=
  .cons "kind" rfl (.scalar rfl) (.cons "message" rfl (.scalar rfl) .empty)

theorem regular_detail (d : Detail) : (Detail.toJson d).Regular := regular_described d.kind.name d.message

theorem regular_reportJson (r : Report) : (reportJson r).Regular := by
  rw [reportJson]
  cases r.cause with
  | none =>
      split
      case isTrue => exact regular_described _ _
      case isFalse =>
        exact .cons "kind" rfl (.scalar rfl) (.cons "message" rfl (.scalar rfl) (.cons "path" rfl (.scalar rfl) .empty))
  | some d =>
      split
      case isTrue =>
        exact .cons "kind" rfl (.scalar rfl)
          (.cons "message" rfl (.scalar rfl) (.cons "cause" rfl (regular_detail d) .empty))
      case isFalse =>
        exact .cons "kind" rfl (.scalar rfl) (.cons "message" rfl (.scalar rfl)
          (.cons "path" rfl (.scalar rfl) (.cons "cause" rfl (regular_detail d) .empty)))

theorem CommandError.regular_toJson (e : CommandError) : e.toJson.Regular := by
  cases e with
  | validation e => exact regular_reportJson e.report
  | resolution e => exact regular_described e.kindName e.message
  | connection message => exact regular_described _ message
  | file message => exact regular_described _ message
  | needsIndexFile => exact regular_described _ _
  | unfit how => exact .scalar rfl

/-! ### Outputs -/

/-- An output that can be told from an error. -/
structure Output.Plain (out : Output) : Prop where
  regular : out.data.Regular
  noError : ¬ out.data.TellsError

theorem Output.Plain.of_fields {fields : Fields} {code : ExitCode} {text : String} (regular : (Json.obj fields).Regular)
    (noError : Json.hasField fields "error" = false) : Output.Plain ⟨code, .obj fields, text⟩ := by
  refine ⟨regular, ?_⟩
  rintro ⟨_, ⟨⟩, told⟩
  rw [noError] at told
  cases told

/-- What a command comes to: the exit code of its output, or that of the error in which it ends. -/
inductive Comes : Except CommandError Output → ExitCode → Prop
  | output {out : Output} (plain : out.Plain) : Comes (.ok out) out.code
  | error {err : CommandError} {code : ExitCode} (known : err.code? = .ok code) : Comes (.error err) code

/-- What a command comes to where one thing can be wrong with what it is given. -/
inductive Judges (result : Except CommandError Output) (code : ExitCode) (wrong : Prop) : Prop
  | refused (wrong : wrong) (comes : Comes result code)
  | passed (right : ¬ wrong) (comes : Comes result .success)

/-- What is left of a command that comes to an exit code: the code, and one document where documents are printed. -/
theorem Comes.finish {e : Ended} {code : ExitCode} (h : Comes e.result code) (asJson : Bool) (before : List Record) :
    (e.finish asJson before).exit = .ok code.number ∧
      (asJson = true → ∃ v, Json.read (e.finish asJson before).output = .ok v ∧
        (v.TellsError ↔ ∃ err, e.result = .error err)) := by
  generalize result : e.result = r at h
  cases h with
  | @output out plain =>
      refine ⟨by simp only [Ended.finish, result], ?_⟩
      rintro rfl
      obtain ⟨w, same, read⟩ := plain.regular.read_render Json.Layout.indentedPlain_standard
      have printed : (e.finish true before).output = out.data.render .indentedPlain ++ "\n" := by
        simp only [Ended.finish, result]
        rfl
      rw [printed]
      refine ⟨w, read, ?_⟩
      rw [same.tellsError_iff]
      exact ⟨fun told => absurd told plain.noError, nofun⟩
  | @error err code known =>
      refine ⟨by simp only [Ended.finish, result, known], ?_⟩
      rintro rfl
      have whole : (Json.obj [("error", err.toJson)]).Regular := .cons "error" rfl err.regular_toJson .empty
      obtain ⟨w, same, read⟩ := whole.read_render Json.Layout.indentedPlain_standard
      have printed : (e.finish true before).output =
          (Json.obj [("error", err.toJson)]).render .indentedPlain ++ "\n" := by
        simp only [Ended.finish, result, known]
        rfl
      rw [printed]
      refine ⟨w, read, ?_⟩
      rw [same.tellsError_iff]
      exact ⟨fun _ => ⟨err, rfl⟩, fun _ => ⟨_, rfl, rfl⟩⟩

/-! ### Commands on one document -/

variable {v : Json}

theorem comes_refused {e : ValidationError} (told : e.hasMessage = true) :
    Comes (.error (.refused e)) .validationError := by
  rw [CommandError.refused_of_told told]
  exact .error rfl

theorem judges_validate (texted : v.hasText = true) :
    Judges (validateOutput v) .validationError (∃ e, v.checkPublishable = .error e) := by
  rw [validateOutput]
  cases checked : v.checkPublishable with
  | error e => exact .refused ⟨e, rfl⟩ (comes_refused (hasMessage_of_unpublishable checked texted))
  | ok _ =>
      refine .passed nofun (.output (.of_fields ?_ rfl))
      exact .cons "valid" rfl (.scalar rfl) (.cons "type" rfl (.scalar rfl) .empty)

theorem judges_analyze (regular : v.Regular) (texted : v.hasText = true) :
    Judges (analyzeOutput v) .validationError (∃ e, Expr.decode v = .error e) := by
  rw [analyzeOutput]
  cases read : Expr.decode v with
  | error e =>
      rw [analysis_of_refused read, TermError.refused_of_told (Expr.hasMessage_of_refused read texted)]
      exact .refused ⟨e, rfl⟩ (.error rfl)
  | ok e =>
      obtain ⟨a, made, told⟩ := exists_analysis read
      rw [made]
      exact .passed nofun (.output (.of_fields (told regular) rfl))

theorem judges_suggest (texted : v.hasText = true) :
    Judges (suggestOutput v) .validationError (∃ e, Expr.decode v = .error e) := by
  rw [suggestOutput]
  cases read : Expr.decode v with
  | ok e =>
      rw [fixes_eq_nil_iff.mpr ⟨e, read⟩]
      refine .passed nofun (.output (.of_fields ?_ rfl))
      exact .cons "valid" rfl (.scalar rfl) (.cons "suggestions" rfl (.arr (List.forall_mem_nil _)) .empty)
  | error e =>
      rw [fixes_of_refused read, if_pos (Expr.hasMessage_of_refused read texted)]
      split
      case h_1 failed => cases failed
      case h_2 none => exact absurd (Except.ok.inj none) (v.hints_ne_nil e)
      case h_3 =>
        refine .refused ⟨e, rfl⟩ (.output (.of_fields ?_ rfl))
        exact .cons "valid" rfl (.scalar rfl)
          (.cons "suggestions" rfl (.arr (List.forall_mem_map.mpr fun _ _ => .scalar rfl)) .empty)

theorem judges_format (style : Given Style) (texted : v.hasText = true) :
    Judges (formatOutput style v) .validationError (∃ e, Expr.decode v = .error e) := by
  rw [formatOutput]
  cases read : Expr.decode v with
  | error e => exact .refused ⟨e, rfl⟩ (comes_refused (Expr.hasMessage_of_refused read texted))
  | ok e =>
      obtain ⟨text, written⟩ := Expr.exists_format read texted (style.value?.getD .indented)
      simp only [written]
      refine .passed nofun (.output (.of_fields ?_ rfl))
      refine .cons "style" rfl ?_ (.cons "output" rfl (.scalar rfl) .empty)
      cases style with
      | value s => exact .scalar rfl
      | nothing => exact .arr (List.forall_mem_nil _)

theorem comes_examples : Comes (.ok examplesOutput) .success := by
  refine .output ⟨Json.regular_of_isRegular rfl, ?_⟩
  rintro ⟨_, ⟨⟩, _⟩

/-! ### Questions about the packages of a store -/

variable {store : Store}

theorem regular_resolvedJson {pins : Table Scalar String} (h : PlainPins pins) : (resolvedJson pins).Regular :=
  .cons "resolved" rfl h.regular .empty

end Cli

theorem Store.Formed.constant {store : Store} (h : store.Formed) :
    Source.ofTable.Constant store (Lookup.ofTable store) :=
  Source.ofTable_constant fun e member => (h e member).1

theorem Store.Formed.worded {store : Store} (h : store.Formed) : (Lookup.ofTable store).Worded := by
  intro n package found
  obtain ⟨k, member, _⟩ := Table.mem_of_get? found
  obtain ⟨_, formed⟩ := h (k, package) member
  intro e declared
  obtain ⟨named, required⟩ := formed.textual.dependencies e declared
  obtain ⟨whole, readable⟩ := Json.all_obj_iff.mp formed.dependencies e declared
  exact ⟨Scalar.isString_iff.mpr ⟨named, whole⟩, Json.isString_iff.mpr ⟨required, readable⟩⟩

theorem Store.Formed.textual {store : Store} (h : store.Formed) : (Lookup.ofTable store).Textual :=
  h.worded.textual

namespace Cli

variable {store : Store}

theorem judges_resolve (h : store.Formed) (name : String) :
    Judges (((Question.resolve name).answer Source.ofTable store).2.mapError failureError) .resolutionError
      (∃ e, (resolve Source.ofTable (.str name) store).2 = .error (.resolve e)) := by
  have texts : (Lookup.ofTable store).Textual := h.textual
  rcases h.constant.resolve_total (Source.ofTable_finite store) texts name with ⟨pins, answer⟩ | ⟨e, answer⟩
  · simp only [Question.answer, answer]
    refine .passed nofun (.output (.of_fields ?_ rfl))
    exact regular_resolvedJson (h.constant.pins_of_resolve h.worded answer)
  · simp only [Question.answer, answer]
    exact .refused ⟨e, rfl⟩ (.error rfl)

theorem judges_requirements (h : store.Formed) {entries : Fields} (declared : ∀ e ∈ entries, e.1.isString = true) :
    Judges (((Question.requirements entries).answer Source.ofTable store).2.mapError failureError) .resolutionError
      (∃ e, (resolveRequirements Source.ofTable entries store).2 = .error (.resolve e)) := by
  have texts : ∀ e ∈ entries, e.1.isText = true := fun e member => (Scalar.isString_iff.mp (declared e member)).1
  rcases h.constant.resolveRequirements_total (Source.ofTable_finite store) h.textual texts with
    ⟨pins, answer⟩ | ⟨e, answer⟩
  · simp only [Question.answer, answer]
    refine .passed nofun (.output (.of_fields ?_ rfl))
    exact regular_resolvedJson (h.constant.pins_of_resolveRequirements h.worded declared answer)
  · simp only [Question.answer, answer]
    exact .refused ⟨e, rfl⟩ (.error rfl)

/-- A tree with an error leaf is printed as it is, but its exit code is that of a resolution error. -/
theorem judges_tree (h : store.Formed) (name : String) :
    Judges (((Question.tree name).answer Source.ofTable store).2.mapError failureError) .resolutionError
      ((∃ e, (dependencyTree Source.ofTable (.str name) store).2 = .error (.resolve e)) ∨
        ∃ t, (dependencyTree Source.ofTable (.str name) store).2 = .ok t ∧ t.hasFailure = true) := by
  have texts : (Lookup.ofTable store).Textual := h.textual
  rcases h.constant.dependencyTree_total (Source.ofTable_finite store) texts name with ⟨t, answer⟩ | ⟨e, answer⟩
  · obtain ⟨regular, fields, shape, noError⟩ := h.constant.regular_of_dependencyTree h.worded answer
    simp only [Question.answer, answer]
    have plain (code : ExitCode) (text : String) : Output.Plain ⟨code, t.toJson, text⟩ := by
      rw [shape] at regular ⊢
      exact .of_fields regular noError
    cases failed : t.hasFailure with
    | true =>
        refine .refused (.inr ⟨t, rfl, failed⟩) ?_
        simp only [Except.map, Except.mapError, failed, if_true]
        exact .output (plain .resolutionError _)
    | false =>
        refine .passed ?_ ?_
        · rintro (⟨e, ⟨⟩⟩ | ⟨_, ⟨⟩, other⟩)
          cases failed.symm.trans other
        · simp only [Except.map, Except.mapError, failed, Bool.false_eq_true, if_false]
          exact .output (plain .success _)
  · simp only [Question.answer, answer]
    exact .refused (.inl ⟨e, rfl⟩) (.error rfl)

/-- The packages of a store can be put in order, and what depends on a name is told by texts. -/
theorem exists_dependents (h : store.Formed) (name : String) :
    ∃ found, store.dependents (.str name) = .ok found ∧ ∀ d ∈ found, d.toJson.Regular := by
  have texts : ∀ k ∈ store.map Prod.fst, k.isText = true := by
    refine List.forall_mem_map.mpr fun e member => ?_
    obtain ⟨text, named⟩ := (h e member).2.named
    rw [Json.scalar.inj ((h e member).1.symm.trans named)]
    rfl
  obtain ⟨sorted, ordered, same⟩ := Json.sortBy_eq_ok texts
  refine ⟨_, by rw [Store.dependents, Store.sorted, ordered]; rfl, ?_⟩
  intro d member
  obtain ⟨p, listed, found⟩ := List.mem_filterMap.mp member
  obtain ⟨requirement, declared, rfl⟩ := Option.map_eq_some_iff.mp found
  obtain ⟨e, stored, rfl⟩ := List.mem_map.mp listed
  obtain ⟨named, formed⟩ := h e (same.mem_iff.mp stored)
  obtain ⟨k, entry, _⟩ := Table.mem_of_get? declared
  obtain ⟨text, rfl⟩ := Json.exists_of_isText (formed.textual.dependencies (k, requirement) entry).2
  obtain ⟨_, readable⟩ := Json.all_obj_iff.mp formed.dependencies _ entry
  obtain ⟨name, spelled⟩ := formed.named
  have title : e.2.title.Regular := by
    refine ⟨?_, formed.title⟩
    rcases formed.textual.title with text | null
    · obtain ⟨caption, given⟩ := Json.exists_of_isText text
      rw [given]
      exact .scalar _
    · rw [null]
      exact .scalar _
  rw [Store.Dependent.toJson, spelled]
  exact .cons "name" rfl (.scalar rfl) (.cons "title" rfl title (.cons "version_requirement" rfl (.scalar readable) .empty))

end Cli

end ExprRegistry
