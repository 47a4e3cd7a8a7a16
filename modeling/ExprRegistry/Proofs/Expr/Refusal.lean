import ExprRegistry.Expr.Encode
import ExprRegistry.Proofs.Expr.Path
import ExprRegistry.Proofs.Expr.Reading

/-!
How documents are refused. A fault is one of the document itself, or it is a fault of the document one step
below, and then it is found there in the same way. Main statement: what users are told about a refused
document names the part that is at fault, and says of it what they would be told about that part alone.
-/

namespace ExprRegistry

theorem map_eq_error_iff {ε α β : Type} {x : Except ε α} {f : α → β} {e : ε} :
    x.map f = .error e ↔ x = .error e := by
  cases x <;> simp [Except.map]

namespace Json

variable {fields : Fields} {v w x : Json}

theorem follow?_field {key : String} (h : field? fields key = some v) :
    follow? [.key key] (.obj fields) = some v := by
  rw [follow?, List.foldlM_cons, access?, h]
  rfl

theorem inside_of_access? {a : Access} (h : access? a v = some w) : w.Inside v := by
  cases a with
  | key name =>
      cases v with
      | obj fields => exact .field h (.self w)
      | _ => cases h
  | index i =>
      cases v with
      | arr items => exact .item (List.mem_of_getElem? h) (.self w)
      | _ => cases h

theorem inside_of_follow? {moves : List Access} (h : follow? moves v = some w) : w.Inside v := by
  induction moves generalizing v with
  | nil =>
      cases h
      exact .self w
  | cons a rest ih =>
      rw [follow?, List.foldlM_cons] at h
      obtain ⟨x, reached, later⟩ := Option.bind_eq_some_iff.mp h
      exact (ih later).trans (inside_of_access? reached)

theorem follow?_lead {lead moves : List Access} (h : follow? lead v = some w)
    (k : follow? moves w = some x) : follow? (lead ++ moves) v = some x := by
  rw [follow?_append, h]
  exact k

end Json

namespace Expr

variable {fields parts : Fields} {step : Step} {lead moves : List Access} {v w : Json} {vs : List Json}
  {e : Invalid}

/-- A document is refused for a fault of its own, whose message can be written if the document can, or for what some
moves lead to, as a step. -/
inductive RefusedAt (step : Step) (moves : List Access) (v : Json) : Invalid → Prop
  | own {fault : Fault} (told : v.hasText = true → fault.hasMessage = true) : RefusedAt step moves v ⟨[], fault⟩
  | below {w : Json} {inner : Invalid} (found : v.follow? moves = some w) (refused : decode w = .error inner) :
      RefusedAt step moves v (inner.below step)

/-- What is refused in a document is refused so in another that leads to the same part and has its texts. -/
theorem RefusedAt.within {moves' : List Access} (refused : RefusedAt step moves w e)
    (texts : v.hasText = true → w.hasText = true)
    (leads : ∀ x, w.follow? moves = some x → v.follow? moves' = some x) : RefusedAt step moves' v e := by
  cases refused with
  | own told => exact .own fun texted => told (texts texted)
  | below found refused => exact .below (leads _ found) refused

/-- What is refused after some moves is so for the document that they start from. -/
theorem RefusedAt.after (h : v.follow? lead = some w) (refused : RefusedAt step moves w e) :
    RefusedAt step (lead ++ moves) v e :=
  refused.within (Json.inside_of_follow? h).all fun _ found => Json.follow?_lead h found

/-- What is refused in a list is refused one place later with one more item at the front. -/
theorem RefusedAt.cons {i : Nat} (v : Json) (refused : RefusedAt step (.index i :: moves) (.arr vs) e) :
    RefusedAt step (.index (i + 1) :: moves) (.arr (v :: vs)) e := by
  refine refused.within (fun texted => ?_) fun _ found => found
  exact Json.all_arr_iff.mpr (List.forall_mem_cons.mp (Json.all_arr_iff.mp texted)).2

theorem refusedAt_of_refuse {α : Type} {fault : Fault}
    (h : (refuse fault : Except Invalid α) = .error e) (told : v.hasText = true → fault.hasMessage = true) :
    RefusedAt step moves v e := by
  cases h
  exact .own told

theorem refusedAt_of_atStep (h : atStep step (decode w) = .error e) (found : v.follow? moves = some w) :
    RefusedAt step moves v e := by
  cases read : decode w with
  | error inner =>
      rw [read] at h
      cases h
      exact .below found read
  | ok d =>
      rw [read] at h
      cases h

/-! ### The functions that read -/

theorem checkParams_error {params : List Json} (h : checkParams params = .error e)
    (inside : ∀ p ∈ params, p.Inside v) : RefusedAt step moves v e := by
  fun_induction checkParams params with
  | case1 => cases h
  | case2 name rest named ih => exact ih h fun p member => inside p (List.mem_cons_of_mem _ member)
  | case3 name rest unnamed => exact refusedAt_of_refuse h fun _ => rfl
  | case4 t rest notWhole => exact refusedAt_of_refuse h fun _ => rfl
  | case5 p rest notText => exact refusedAt_of_refuse h fun texted => (inside p List.mem_cons_self).all texted

theorem decodeField_error {key : String} {absent : Fault} (told : absent.hasMessage = true)
    (h : decodeField key step absent fields = .error e) : RefusedAt step [.key key] (.obj fields) e := by
  rw [decodeField_eq] at h
  split at h
  case h_1 => exact refusedAt_of_refuse h fun _ => told
  case h_2 w found => exact refusedAt_of_atStep h (Json.follow?_field found)

theorem decodeItems_error {index : Nat} (h : decodeItems index vs = .error e) :
    ∃ i, RefusedAt (.item (index + i)) [.index i] (.arr vs) e := by
  induction vs generalizing index with
  | nil => cases h
  | cons v rest ih =>
      rw [decodeItems] at h
      split at h
      case h_1 first refused =>
        cases h
        split at refused
        case isTrue => exact ⟨0, refusedAt_of_atStep refused rfl⟩
        case isFalse => cases refused
      case h_2 =>
        obtain ⟨i, later⟩ := ih (map_eq_error_iff.mp h)
        refine ⟨i + 1, ?_⟩
        rw [Nat.add_assoc, Nat.add_comm 1] at later
        exact later.cons v

theorem decodeBranch_error {index : Nat} (h : decodeBranch index v = .error e) :
    RefusedAt (.result index) [.key "result"] v e := by
  cases v with
  | scalar k => exact refusedAt_of_refuse h fun _ => rfl
  | arr items => exact refusedAt_of_refuse h fun _ => rfl
  | obj fields =>
      rw [decodeBranch] at h
      split at h
      case h_1 => exact refusedAt_of_refuse h fun _ => rfl
      case h_2 =>
        split at h
        case isTrue => exact refusedAt_of_refuse h fun _ => rfl
        case isFalse =>
          split at h
          case isTrue => exact refusedAt_of_refuse h fun _ => rfl
          case isFalse => exact decodeField_error rfl (map_eq_error_iff.mp h)

theorem decodeBranches_error {index : Nat} (h : decodeBranches index vs = .error e) :
    ∃ i, RefusedAt (.result (index + i)) [.index i, .key "result"] (.arr vs) e := by
  induction vs generalizing index with
  | nil => cases h
  | cons v rest ih =>
      rw [decodeBranches] at h
      split at h
      case h_1 first refused =>
        cases h
        have here : Json.follow? [.index 0] (.arr (v :: rest)) = some v := rfl
        exact ⟨0, (decodeBranch_error refused).after here⟩
      case h_2 =>
        obtain ⟨i, later⟩ := ih (map_eq_error_iff.mp h)
        refine ⟨i + 1, ?_⟩
        rw [Nat.add_assoc, Nat.add_comm 1] at later
        exact later.cons v

theorem decodeVector_error (h : decodeVector v = .error e) : ∃ i, RefusedAt (.item i) [.index i] v e := by
  cases v with
  | scalar k => exact ⟨0, refusedAt_of_refuse h fun _ => rfl⟩
  | obj parts => exact ⟨0, refusedAt_of_refuse h fun _ => rfl⟩
  | arr vs =>
      obtain ⟨i, refused⟩ := decodeItems_error (map_eq_error_iff.mp h)
      rw [Nat.zero_add] at refused
      exact ⟨i, refused⟩

theorem decodeApplication_error (h : decodeApplication v = .error e) :
    RefusedAt .function [.key "fn"] v e ∨ RefusedAt .argument [.key "args"] v e := by
  cases v with
  | scalar k => exact .inl (refusedAt_of_refuse h fun _ => rfl)
  | arr items => exact .inl (refusedAt_of_refuse h fun _ => rfl)
  | obj parts =>
      rw [decodeApplication] at h
      split at h
      case h_1 refused =>
        cases h
        exact .inl (decodeField_error rfl refused)
      case h_2 =>
        split at h
        case isTrue => cases h
        case isFalse => exact .inr (decodeField_error rfl (map_eq_error_iff.mp h))

theorem decodeLambda_error (h : decodeLambda v = .error e) : RefusedAt .body [.key "body"] v e := by
  cases v with
  | scalar k => exact refusedAt_of_refuse h fun _ => rfl
  | arr items => exact refusedAt_of_refuse h fun _ => rfl
  | obj parts =>
      rw [decodeLambda] at h
      split at h
      case h_1 => exact refusedAt_of_refuse h fun _ => rfl
      case h_2 given =>
        split at h
        case isTrue => exact refusedAt_of_refuse h fun _ => rfl
        case isFalse =>
          split at h
          case h_1 =>
            split at h
            case h_1 refused =>
              cases h
              exact checkParams_error refused fun p member => .field given (.item member (.self p))
            case h_2 => exact decodeField_error rfl (map_eq_error_iff.mp h)
          case h_2 => exact refusedAt_of_refuse h fun _ => rfl

theorem decodeCases_error (h : decodeCases v = .error e) :
    RefusedAt .scrutinee [.key "expr"] v e ∨
      ∃ i, RefusedAt (.result i) [.key "branches", .index i, .key "result"] v e := by
  cases v with
  | scalar k => exact .inl (refusedAt_of_refuse h fun _ => rfl)
  | arr items => exact .inl (refusedAt_of_refuse h fun _ => rfl)
  | obj parts =>
      rw [decodeCases] at h
      split at h
      case isTrue => exact .inl (refusedAt_of_refuse h fun _ => rfl)
      case isFalse =>
        split at h
        case h_1 => exact .inl (refusedAt_of_refuse h fun _ => rfl)
        case h_2 vs here =>
          split at h
          case h_1 refused =>
            cases h
            exact .inl (decodeField_error rfl refused)
          case h_2 =>
            have refused := map_eq_error_iff.mp h
            simp only [decodeBranchesField_eq, here] at refused
            obtain ⟨i, refused⟩ := decodeBranches_error refused
            rw [Nat.zero_add] at refused
            exact .inr ⟨i, refused.after (Json.follow?_field here)⟩
        case h_3 => exact .inl (refusedAt_of_refuse h fun _ => rfl)

/-- A payload is refused for a fault of its own, or at the end of a step's moves after the first. -/
theorem decodePayload_error {form : Form} (h : decodePayload form v = .error e) :
    ∃ step moves, Step.accesses step = .key "v" :: moves ∧ RefusedAt step moves v e := by
  cases form with
  | literal =>
      refine ⟨.inner, [], rfl, ?_⟩
      cases v with
      | obj parts => exact refusedAt_of_refuse h fun _ => rfl
      | _ => cases h
  | reference =>
      refine ⟨.inner, [], rfl, ?_⟩
      rw [decodePayload] at h
      unfold decodeReference at h
      split at h
      case h_1 =>
        split at h
        case isTrue => cases h
        case isFalse => exact refusedAt_of_refuse h fun _ => rfl
      case h_2 => exact refusedAt_of_refuse h fun _ => rfl
      case h_3 => exact refusedAt_of_refuse h fun _ => rfl
  | application =>
      rcases decodeApplication_error h with refused | refused
      · exact ⟨.function, _, rfl, refused⟩
      · exact ⟨.argument, _, rfl, refused⟩
  | vector =>
      obtain ⟨i, refused⟩ := decodeVector_error h
      exact ⟨.item i, _, rfl, refused⟩
  | lambda => exact ⟨.body, _, rfl, decodeLambda_error h⟩
  | fixpoint => exact ⟨.inner, [], rfl, refusedAt_of_atStep (map_eq_error_iff.mp h) rfl⟩
  | cases =>
      rcases decodeCases_error h with refused | ⟨i, refused⟩
      · exact ⟨.scrutinee, _, rfl, refused⟩
      · exact ⟨.result i, _, rfl, refused⟩

/-- A document is refused for a fault of its own, or one step below. -/
theorem exists_refusedAt (h : decode v = .error e) : ∃ step, RefusedAt step (Step.accesses step) v e := by
  cases v with
  | scalar k => exact ⟨.inner, refusedAt_of_refuse h fun _ => rfl⟩
  | arr items => exact ⟨.inner, refusedAt_of_refuse h fun _ => rfl⟩
  | obj fields =>
      rw [decode] at h
      split at h
      case h_1 => exact ⟨.inner, refusedAt_of_refuse h fun _ => rfl⟩
      case h_2 =>
        split at h
        case h_1 form _ =>
          rw [decodeTagged_eq] at h
          split at h
          case h_1 => exact ⟨.inner, refusedAt_of_refuse h fun _ => rfl⟩
          case h_2 payload loaded =>
            obtain ⟨step, moves, spelled, refused⟩ := decodePayload_error h
            refine ⟨step, ?_⟩
            rw [spelled]
            exact refused.after (Json.follow?_field loaded)
        case h_2 => exact ⟨.inner, refusedAt_of_refuse h fun _ => rfl⟩
      case h_3 tag _ tagged => exact ⟨.inner, refusedAt_of_refuse h fun texted => Json.all_field texted tagged⟩

/-- The path of a refusal leads to a part that is refused by itself for the same fault. -/
theorem exists_fault {path : Path} {fault : Fault} (h : decode v = .error ⟨path, fault⟩) :
    ∃ w, v.follow? path.accesses = some w ∧ decode w = .error ⟨[], fault⟩ := by
  induction path generalizing v with
  | nil => exact ⟨v, rfl, h⟩
  | cons step rest ih =>
      obtain ⟨_, refused⟩ := exists_refusedAt h
      cases refused with
      | below found refused =>
          obtain ⟨x, reached, alone⟩ := ih refused
          exact ⟨x, Json.follow?_lead found reached, alone⟩

/-- The message of a refusal can be written if the document can. -/
theorem hasMessage_of_refused (h : decode v = .error e) (texted : v.hasText = true) : e.fault.hasMessage = true := by
  obtain ⟨path, fault⟩ := e
  induction path generalizing v with
  | nil =>
      obtain ⟨_, refused⟩ := exists_refusedAt h
      cases refused with
      | own told => exact told texted
  | cons step rest ih =>
      obtain ⟨_, refused⟩ := exists_refusedAt h
      cases refused with
      | below found refused => exact ih ((Json.inside_of_follow? found).all texted) refused

end Expr

/-! ### Reports -/

/-- A report that is about a thing by itself: it has no place, and nothing else is behind it. -/
def Detail.alone (detail : Detail) : Report := { detail with path := "", cause := none }

theorem Fault.kind_ne_nestedInvalid (fault : Fault) : fault.kind ≠ .nestedInvalid := by
  cases fault <;> exact nofun

theorem Invalid.report_alone (fault : Fault) : report ⟨[], fault⟩ = fault.detail.alone := rfl

theorem Invalid.report_path (e : Invalid) : e.report.path = Path.text e.path := by
  obtain ⟨path, fault⟩ := e
  cases path <;> rfl

/-- What users are told about a refused document, if the message of the fault can be written. A report without a
place is about the document itself. Otherwise the text of its place leads to one part of the document; the report
says that something is wrong there, and its cause is all that would be reported of that part by itself. -/
theorem report_of_refused {v : Json} {e : Invalid} (h : Expr.decode v = .error e)
    (worded : e.fault.hasMessage = true) :
    (e.report.path = "" → e.report.kind ≠ .nestedInvalid ∧ e.report.cause = none) ∧
    (e.report.path ≠ "" → e.report.kind = .nestedInvalid ∧
      ∃ w inner cause, v.LeadsTo e.report.path w ∧ (∀ x, v.LeadsTo e.report.path x → x = w) ∧
        Expr.decode w = .error inner ∧ inner.fault.hasMessage = true ∧ inner.report = cause.alone ∧
        e.report.cause = some cause ∧
        e.report.message = "Invalid G-expression at " ++ e.report.path ++ ": " ++ cause.message) := by
  obtain ⟨path, fault⟩ := e
  rw [Invalid.report_path]
  constructor
  · intro root
    cases Path.text_eq_empty_iff.mp root
    exact ⟨fault.kind_ne_nestedInvalid, rfl⟩
  · intro below
    obtain ⟨step, rest, rfl⟩ := List.exists_cons_of_ne_nil (mt Path.text_eq_empty_iff.mpr below)
    obtain ⟨w, reached, alone⟩ := Expr.exists_fault h
    have leads : v.LeadsTo (Path.text (step :: rest)) w := ⟨_, rfl, reached⟩
    exact ⟨rfl, w, _, fault.detail, leads, fun x => leads.unique, alone, worded, Invalid.report_alone fault,
      rfl, rfl⟩

/-- A match of which the second branch results in a vector that holds an application to something unnamed. -/
def refusedMatch : Json :=
  Expr.tagged .cases (.obj [
    ("expr", Expr.tagged .reference (.str "x")),
    ("branches", .arr [
      .obj [("pattern", .obj []), ("result", Expr.tagged .literal .null)],
      .obj [("pattern", .str "else"),
        ("result", Expr.tagged .vector (.arr [.int 1, Expr.tagged .application (.obj [
          ("fn", Expr.tagged .reference (.str "f")), ("args", Expr.tagged .reference (.str "1x"))])]))]])])

theorem report_of_refused_match :
    ∃ e, Expr.decode refusedMatch = .error e ∧ e.report.path = "v.branches[1].result.v[1].v.args" ∧
      e.report.kind = .nestedInvalid ∧
      ∃ w inner cause, refusedMatch.LeadsTo e.report.path w ∧
        (∀ x, refusedMatch.LeadsTo e.report.path x → x = w) ∧ Expr.decode w = .error inner ∧
        inner.fault.hasMessage = true ∧ inner.report = cause.alone ∧ e.report.cause = some cause ∧
        e.report.message = "Invalid G-expression at " ++ e.report.path ++ ": " ++ cause.message := by
  have read : Expr.decode refusedMatch =
      .error ⟨[.result 1, .item 1, .argument], .referenceName "1x"⟩ := rfl
  have place : (Invalid.report ⟨[.result 1, .item 1, .argument], .referenceName "1x"⟩).path =
      "v.branches[1].result.v[1].v.args" := rfl
  exact ⟨_, read, place, (report_of_refused read rfl).2 (by rw [place]; decide)⟩

end ExprRegistry
