import ExprRegistry.Expr.Check
import ExprRegistry.Expr.Format
import ExprRegistry.Expr.Metrics
import ExprRegistry.Proofs.Expr.Refusal
import ExprRegistry.Proofs.Expr.Trimmed
import ExprRegistry.Proofs.Json.Regular

/-!
What can be shown of an expression that was read. It has an analysis, and a text in every style if its document has
one, so an operation on it is refused only where the document is; and no hints are given for exactly the documents that
are expressions. Main statements: `exists_format`, `exists_analysis` and `fixes_eq_nil_iff`.
-/

namespace ExprRegistry

namespace Expr

variable {R : Json → Expr → Prop} {v : Json} {e : Expr} {es : List Expr}

/-! ### Documents -/

section Kept

variable {p : Scalar → Bool} {fields : Fields} {tag : String} {payload w : Json}

/-- What is read has a document, whose scalars are of a kind if those of the document that was read are. -/
def Kept (p : Scalar → Bool) (v : Json) (e : Expr) : Prop :=
  v.all p = true → ∃ w, encode e = .ok w ∧ w.all p = true

/-- The keys that a document gets are texts. -/
theorem all_pair (texts : ∀ s, p (.str s) = true) (key other : String) (first : v.all p = true)
    (second : w.all p = true) : (Json.obj [(.str key, v), (.str other, w)]).all p = true :=
  Json.all_obj_iff.mpr (List.forall_mem_cons.mpr ⟨⟨texts _, first⟩, List.forall_mem_singleton.mpr ⟨texts _, second⟩⟩)

theorem all_tagged (texts : ∀ s, p (.str s) = true) (form : Form) (inside : payload.all p = true) :
    (tagged form payload).all p = true := all_pair texts "g" "v" (texts _) inside

theorem kept_vector {vs : List Json} (texts : ∀ s, p (.str s) = true) (items : List.Forall₂ (ReadingItem (Kept p)) vs es)
    (inside : ∀ v ∈ vs, v.all p = true) : ∃ w, encode (vector es) = .ok w ∧ w.all p = true := by
  have items := forall₂_mono (Q := fun v e => v.all p = true ∧ ReadingItem (Kept p) v e)
    (fun v member e item => ⟨inside v member, item⟩) items
  have each : ∀ e ∈ es, ∃ w, WritesItem e w ∧ w.all p = true := by
    intro e member
    obtain ⟨v, given, item⟩ := exists_of_forall₂ items.flip e member
    cases item with
    | expression _ read =>
        obtain ⟨w, written, kept⟩ := read given
        exact ⟨w, .inr written, kept⟩
    | value _ => exact ⟨v, .inl rfl, given⟩
  obtain ⟨ws, written, kept⟩ := exists_forall₂_both (Q := fun (w : Json) _ => w.all p = true) each
  refine ⟨tagged .vector (.arr ws), by rw [encode, encodeItems_eq_ok_iff.mpr written]; rfl, ?_⟩
  refine all_tagged texts .vector (Json.all_arr_iff.mpr fun w member => ?_)
  obtain ⟨_, here⟩ := exists_of_forall₂ kept w member
  exact here

theorem kept_branches {vs : List Json} {branches : List (Json × Expr)} (texts : ∀ s, p (.str s) = true)
    (items : List.Forall₂ (ReadingBranch (Kept p)) vs branches) (inside : ∀ v ∈ vs, v.all p = true) :
    ∃ ws, encodeBranches branches = .ok ws ∧ ∀ w ∈ ws, w.all p = true := by
  have items := forall₂_mono (Q := fun v b => v.all p = true ∧ ReadingBranch (Kept p) v b)
    (fun v member b item => ⟨inside v member, item⟩) items
  have each : ∀ b ∈ branches, ∃ w, WritesBranch b w ∧ w.all p = true := by
    intro b member
    obtain ⟨v, given, item⟩ := exists_of_forall₂ items.flip b member
    cases item with
    | mk pattern _ result read =>
        obtain ⟨w, written, kept⟩ := read (Json.all_field given result)
        exact ⟨_, ⟨w, written, rfl⟩, all_pair texts "pattern" "result" (Json.all_field given pattern) kept⟩
  obtain ⟨ws, written, kept⟩ := exists_forall₂_both (Q := fun (w : Json) _ => w.all p = true) each
  refine ⟨ws, encodeBranches_eq_ok_iff.mpr written, fun w member => ?_⟩
  obtain ⟨_, here⟩ := exists_of_forall₂ kept w member
  exact here

theorem Reading.kept (texts : ∀ s, p (.str s) = true) (h : Reading (Kept p) v e) : Kept p v e := by
  intro given
  cases h with
  | literal carries notObject => exact ⟨_, rfl, all_tagged texts .literal (Json.all_field given carries.loaded)⟩
  | reference carries named => exact ⟨_, rfl, all_tagged texts .reference (texts _)⟩
  | vector carries items =>
      exact kept_vector texts items (Json.all_arr_iff.mp (Json.all_field given carries.loaded))
  | partialApplication carries function read noArgument =>
      obtain ⟨w, written, kept⟩ := read (Json.all_field (Json.all_field given carries.loaded) function)
      refine ⟨tagged .application (.obj [("fn", w)]), by rw [encode, written]; rfl, all_tagged texts .application ?_⟩
      exact Json.all_obj_iff.mpr (List.forall_mem_singleton.mpr ⟨texts _, kept⟩)
  | application carries function read argument _ readArgument =>
      have parts := Json.all_field given carries.loaded
      obtain ⟨w, written, kept⟩ := read (Json.all_field parts function)
      obtain ⟨x, writtenArgument, keptArgument⟩ := readArgument (Json.all_field parts argument)
      refine ⟨tagged .application (.obj [("fn", w), ("args", x)]), by rw [encode, written, writtenArgument]; rfl, ?_⟩
      exact all_tagged texts .application (all_pair texts _ _ kept keptArgument)
  | @lambda _ _ params _ _ carries named _ body read =>
      have parts := Json.all_field given carries.loaded
      obtain ⟨w, written, kept⟩ := read (Json.all_field parts body)
      refine ⟨tagged .lambda (.obj [("params", .arr params), ("body", w)]), by rw [encode, written]; rfl, ?_⟩
      exact all_tagged texts .lambda (all_pair texts _ _ (Json.all_field parts named) kept)
  | fixpoint carries read =>
      obtain ⟨w, written, kept⟩ := read (Json.all_field given carries.loaded)
      exact ⟨tagged .fixpoint w, by rw [encode, written]; rfl, all_tagged texts .fixpoint kept⟩
  | cases carries scrutinee read branches items =>
      have parts := Json.all_field given carries.loaded
      obtain ⟨w, written, kept⟩ := read (Json.all_field parts scrutinee)
      obtain ⟨ws, writtenBranches, keptBranches⟩ :=
        kept_branches texts items (Json.all_arr_iff.mp (Json.all_field parts branches))
      refine ⟨tagged .cases (.obj [("expr", w), ("branches", .arr ws)]), by rw [encode, written, writtenBranches]; rfl, ?_⟩
      exact all_tagged texts .cases (all_pair texts _ _ kept (Json.all_arr_iff.mpr keptBranches))

theorem kept_of_decode (texts : ∀ s, p (.str s) = true) (h : decode v = .ok e) : Kept p v e :=
  decode_induct (fun level => Reading.kept texts (level.mono fun _ _ _ => And.right)) h

end Kept

/-! ### Call notation -/

theorem written_eq_ok_iff {text : String} : written v = .ok text ↔ v.hasText = true ∧ v.render .spaced = text := by
  rw [written, mapError_eq_ok_iff, Json.dump_eq_ok_iff]

theorem written_eq_ok (text : v.hasText = true) : written v = .ok (v.render .spaced) := written_eq_ok_iff.mpr ⟨text, rfl⟩

theorem exists_prettyItems (h : ∀ e ∈ es, (∃ w, e = raw w ∧ w.hasText = true) ∨ ∃ text, pretty e = .ok text) :
    ∃ texts, prettyItems es = .ok texts := by
  induction es with
  | nil => exact ⟨[], rfl⟩
  | cons e es ih =>
      obtain ⟨first, rest⟩ := List.forall_mem_cons.mp h
      obtain ⟨texts, others⟩ := ih rest
      rcases first with ⟨w, rfl, text⟩ | ⟨text, shown⟩
      · exact ⟨w.render .spaced :: texts, by rw [prettyItems, others, written_eq_ok text]; rfl⟩
      · refine ⟨text :: texts, ?_⟩
        cases e with
        | raw w => cases shown
        | branch pattern result => cases shown
        | _ =>
            simp only [prettyItems, others, shown]
            rfl

theorem exists_paramTexts {params : List Json} (h : ∀ p ∈ params, ∃ name, p = .str name ∧ IsParameter name) :
    ∃ names, paramTexts params = .ok names := by
  induction params with
  | nil => exact ⟨[], rfl⟩
  | cons p params ih =>
      obtain ⟨⟨name, rfl, _⟩, rest⟩ := List.forall_mem_cons.mp h
      obtain ⟨names, others⟩ := ih rest
      exact ⟨name :: names, by rw [paramTexts, others]; rfl⟩

/-- What is read from a document that has a text can be written in call notation. -/
def Called (v : Json) (e : Expr) : Prop := v.hasText = true → ∃ text, pretty e = .ok text

theorem Reading.called (h : Reading Called v e) : Called v e := by
  intro given
  cases h with
  | literal carries notObject =>
      have text := Json.all_field given carries.loaded
      exact ⟨_, by rw [pretty, written_eq_ok text]; rfl⟩
  | reference carries named => exact ⟨_, rfl⟩
  | @vector _ vs es carries items =>
      have values := Json.all_arr_iff.mp (Json.all_field given carries.loaded)
      have items := forall₂_mono (Q := fun v e => v.hasText = true ∧ ReadingItem Called v e)
        (fun v member e item => ⟨values v member, item⟩) items
      have each : ∀ e ∈ es, (∃ w, e = raw w ∧ w.hasText = true) ∨ ∃ text, pretty e = .ok text := by
        intro f member
        obtain ⟨w, text, item⟩ := exists_of_forall₂ items.flip f member
        cases item with
        | expression _ read => exact .inr (read text)
        | value _ => exact .inl ⟨w, rfl, text⟩
      obtain ⟨texts, shown⟩ := exists_prettyItems each
      exact ⟨_, by rw [pretty, shown]; rfl⟩
  | partialApplication carries function read noArgument =>
      obtain ⟨text, shown⟩ := read (Json.all_field (Json.all_field given carries.loaded) function)
      exact ⟨_, by rw [pretty, shown]; rfl⟩
  | application carries function read argument _ readArgument =>
      have parts := Json.all_field given carries.loaded
      obtain ⟨text, shown⟩ := read (Json.all_field parts function)
      obtain ⟨other, shownArgument⟩ := readArgument (Json.all_field parts argument)
      exact ⟨_, by rw [pretty, shown, shownArgument]; rfl⟩
  | lambda carries params named body read =>
      obtain ⟨names, listed⟩ := exists_paramTexts named
      obtain ⟨text, shown⟩ := read (Json.all_field (Json.all_field given carries.loaded) body)
      exact ⟨_, by rw [pretty, listed, shown]; rfl⟩
  | fixpoint carries read =>
      obtain ⟨text, shown⟩ := read (Json.all_field given carries.loaded)
      exact ⟨_, by rw [pretty, shown]; rfl⟩
  | cases carries scrutinee read branches items =>
      obtain ⟨text, shown⟩ := read (Json.all_field (Json.all_field given carries.loaded) scrutinee)
      exact ⟨_, by rw [pretty, shown]; rfl⟩

theorem called_of_decode (h : decode v = .ok e) : Called v e :=
  decode_induct (fun level => Reading.called (level.mono fun _ _ _ => And.right)) h

theorem exists_document (h : decode v = .ok e) (text : v.hasText = true) (layout : Json.Layout) :
    ∃ text, e.document layout = .ok text := by
  obtain ⟨w, written, kept⟩ := kept_of_decode (fun _ => rfl) h text
  have dumped : w.dump layout = .ok (w.render layout) := Json.dump_eq_ok_iff.mpr ⟨kept, rfl⟩
  exact ⟨w.render layout, by simp only [document, written, bind, Except.bind, dumped, Except.mapError]⟩

/-- What was read from a document that has a text has a text in every style. -/
theorem exists_format (h : decode v = .ok e) (text : v.hasText = true) (style : Style) :
    ∃ text, e.format style = .ok text := by
  cases style with
  | pretty => exact called_of_decode h text
  | compact => exact exists_document h text .compact
  | indented => exact exists_document h text .indented

/-! ### Outlines -/

/-- What is read has an outline, and from a regular document a regular one. -/
def Outlined (v : Json) (e : Expr) : Prop := ∃ o, outline e = .ok o ∧ (v.Regular → o.Regular)

theorem exists_outlineItems {source : Prop}
    (h : ∀ e ∈ es, (∃ w, e = raw w ∧ (source → w.Regular)) ∨ ∃ o, outline e = .ok o ∧ (source → o.Regular)) :
    ∃ os, outlineItems es = .ok os ∧ (source → ∀ o ∈ os, o.Regular) := by
  induction es with
  | nil => exact ⟨[], rfl, fun _ => List.forall_mem_nil _⟩
  | cons e es ih =>
      obtain ⟨first, rest⟩ := List.forall_mem_cons.mp h
      obtain ⟨os, others, all⟩ := ih rest
      rcases first with ⟨w, rfl, regular⟩ | ⟨o, shown, regular⟩
      · refine ⟨.obj [("type", .str "literal"), ("value", w)] :: os, by rw [outlineItems, others]; rfl, fun given => ?_⟩
        exact List.forall_mem_cons.mpr
          ⟨.cons "type" rfl (.scalar rfl) (.cons "value" rfl (regular given) .empty), all given⟩
      · refine ⟨o :: os, ?_, fun given => List.forall_mem_cons.mpr ⟨regular given, all given⟩⟩
        cases e with
        | raw w => cases shown
        | branch pattern result => cases shown
        | _ =>
            simp only [outlineItems, others, shown]
            rfl

theorem Reading.outlined (h : Reading Outlined v e) : Outlined v e := by
  cases h with
  | literal carries notObject =>
      exact ⟨_, rfl, fun _ => .cons "type" rfl (.scalar rfl) (.cons "value_type" rfl (.scalar rfl) .empty)⟩
  | reference carries named =>
      exact ⟨_, rfl, fun _ => .cons "type" rfl (.scalar rfl) (.cons "name" rfl (.scalar rfl) .empty)⟩
  | @vector fields vs es carries items =>
      have parts : (Json.obj fields).Regular → ∀ w ∈ vs, w.Regular :=
        fun regular => (regular.field carries.loaded).item
      have each : ∀ e ∈ es, (∃ w, e = raw w ∧ ((Json.obj fields).Regular → w.Regular)) ∨
          ∃ o, outline e = .ok o ∧ ((Json.obj fields).Regular → o.Regular) := by
        have items := forall₂_mono (Q := fun w f => w ∈ vs ∧ ReadingItem Outlined w f)
          (fun w member f item => ⟨member, item⟩) items
        intro f listed
        obtain ⟨w, member, item⟩ := exists_of_forall₂ items.flip f listed
        cases item with
        | expression _ read =>
            obtain ⟨o, shown, regular⟩ := read
            exact .inr ⟨o, shown, fun given => regular (parts given w member)⟩
        | value _ => exact .inl ⟨w, rfl, fun given => parts given w member⟩
      obtain ⟨os, shown, regular⟩ := exists_outlineItems each
      refine ⟨_, by rw [outline, shown]; rfl, fun given => ?_⟩
      exact .cons "type" rfl (.scalar rfl)
        (.cons "length" rfl (.scalar rfl) (.cons "elements" rfl (.arr (regular given)) .empty))
  | partialApplication carries function read noArgument =>
      obtain ⟨o, shown, here⟩ := read
      refine ⟨_, by rw [outline, shown]; rfl, fun regular => ?_⟩
      have here := here ((regular.field carries.loaded).field function)
      exact .cons "type" rfl (.scalar rfl) (.cons "function" rfl here (.cons "args" rfl (.scalar rfl) .empty))
  | application carries function read argument given readArgument =>
      obtain ⟨o, shown, here⟩ := read
      obtain ⟨a, shownArgument, there⟩ := readArgument
      refine ⟨_, by rw [outline, shown, shownArgument]; rfl, fun regular => ?_⟩
      have here := here ((regular.field carries.loaded).field function)
      have there := there ((regular.field carries.loaded).field argument)
      exact .cons "type" rfl (.scalar rfl) (.cons "function" rfl here (.cons "args" rfl there .empty))
  | lambda carries params named body read =>
      refine ⟨_, rfl, fun regular => ?_⟩
      have params := (regular.field carries.loaded).field params
      exact .cons "type" rfl (.scalar rfl) (.cons "arity" rfl (.scalar rfl) (.cons "params" rfl params .empty))
  | fixpoint carries read =>
      obtain ⟨o, shown, here⟩ := read
      refine ⟨_, by rw [outline, shown]; rfl, fun regular => ?_⟩
      exact .cons "type" rfl (.scalar rfl) (.cons "expr" rfl (here (regular.field carries.loaded)) .empty)
  | cases carries scrutinee read branches items =>
      obtain ⟨o, shown, here⟩ := read
      refine ⟨_, by rw [outline, shown]; rfl, fun regular => ?_⟩
      have here := here ((regular.field carries.loaded).field scrutinee)
      exact .cons "type" rfl (.scalar rfl) (.cons "expr" rfl here (.cons "branches" rfl (.scalar rfl) .empty))

theorem outlined_of_decode (h : decode v = .ok e) : Outlined v e :=
  decode_induct (fun level => Reading.outlined (level.mono fun _ _ _ => And.right)) h

theorem exists_form_of_decode (h : decode v = .ok e) : ∃ form, e.form? = some form := by
  cases reading_of_decode h <;> exact ⟨_, rfl⟩

end Expr

/-- What was read has an analysis, whose document is regular if the one that was read is. -/
theorem exists_analysis {v : Json} {e : Expr} (h : Expr.decode v = .ok e) :
    ∃ a, Analysis.ofJson v = .ok a ∧ (v.Regular → a.toJson.Regular) := by
  obtain ⟨form, told⟩ := Expr.exists_form_of_decode h
  obtain ⟨o, shown, regular⟩ := Expr.outlined_of_decode h
  refine ⟨⟨form, o, e.complexity, e.depth⟩, ?_, fun given => ?_⟩
  · simp only [Analysis.ofJson, h, Analysis.ofExpr, told, shown]
  · exact .cons "type" rfl (.scalar rfl) (.cons "structure" rfl (regular given)
      (.cons "complexity" rfl (.scalar rfl) (.cons "depth" rfl (.scalar rfl) .empty)))

/-- A document that is no expression has no analysis, for the fault for which it is refused. -/
theorem analysis_of_refused {v : Json} {e : Invalid} (h : Expr.decode v = .error e) :
    Analysis.ofJson v = .error (.refused e) := by
  rw [Analysis.ofJson, h]

theorem isValid_of_refused {v : Json} {e : Invalid} (h : Expr.decode v = .error e) :
    v.isValid = if e.fault.hasMessage then .ok false else .error .value := by
  rw [Json.isValid, h]

theorem isValid_eq_true_iff {v : Json} : v.isValid = .ok true ↔ ∃ e, Expr.decode v = .ok e := by
  cases read : Expr.decode v with
  | ok e =>
      rw [Json.isValid, read]
      exact ⟨fun _ => ⟨e, rfl⟩, fun _ => rfl⟩
  | error e =>
      rw [isValid_of_refused read]
      refine ⟨fun valid => ?_, nofun⟩
      split at valid <;> cases valid

theorem Json.hints_ne_nil (v : Json) (e : Invalid) : v.hints e ≠ [] := by
  rw [hints.eq_def]
  split
  case h_1 fields =>
    split
    case h_1 => exact List.cons_ne_nil _ _
    case h_2 given => exact given
  case h_2 => exact List.cons_ne_nil _ _

theorem fixes_of_refused {v : Json} {e : Invalid} (h : Expr.decode v = .error e) :
    v.fixes = if e.fault.hasMessage then .ok (v.hints e) else .error .value := by
  rw [Json.fixes, h]

/-- No hints are given for exactly the documents that are expressions. -/
theorem fixes_eq_nil_iff {v : Json} : v.fixes = .ok [] ↔ ∃ e, Expr.decode v = .ok e := by
  cases read : Expr.decode v with
  | ok e =>
      rw [Json.fixes, read]
      exact ⟨fun _ => ⟨e, rfl⟩, fun _ => rfl⟩
  | error e =>
      rw [fixes_of_refused read]
      refine ⟨fun none => ?_, nofun⟩
      split at none
      case isTrue => exact absurd (Except.ok.inj none) (v.hints_ne_nil e)
      case isFalse => cases none

/-- The message of the refusal of a document that is to be published can be written if the document can. -/
theorem hasMessage_of_unpublishable {v : Json} {e : ValidationError} (h : v.checkPublishable = .error e)
    (texted : v.hasText = true) : e.hasMessage = true := by
  have expression (bare : Json.checkPublishable.checkExpression v = .error e) : e.hasMessage = true := by
    rw [Json.checkPublishable.checkExpression] at bare
    split at bare
    case h_1 => cases bare
    case h_2 read =>
      cases bare
      exact Expr.hasMessage_of_refused read texted
  rw [Json.checkPublishable.eq_def] at h
  split at h
  case h_2 => exact expression h
  case h_1 fields =>
    split at h
    case h_2 => exact expression h
    case h_1 data name given named =>
      split at h
      case isTrue =>
        cases h
        exact Json.all_field texted named
      case isFalse =>
        split at h
        case isTrue =>
          cases h
          rfl
        case isFalse =>
          split at h
          case h_1 => cases h
          case h_2 read =>
            cases h
            exact Expr.hasMessage_of_refused read (Json.all_field texted given)

end ExprRegistry
