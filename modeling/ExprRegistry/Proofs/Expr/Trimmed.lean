import ExprRegistry.Proofs.Expr.RoundTrip
import ExprRegistry.Proofs.Json.Rearranged

/-!
What is lost when a document is read. Every value of a document has a role, and an object has keys of its own
that depend on its role; `trimmed` deletes all other keys. Main statement: writing what was read from a
document gives the trimmed document, so it gives the document itself exactly when there is nothing to trim.
-/

namespace ExprRegistry

/-- What a value of a document is there for. A literal, a pattern and the parameters of a lambda are taken
as a whole. An item of a vector has the role of an expression even if it is none. -/
inductive Role where
  | whole
  | expression
  | items
  | application
  | lambda
  | cases
  | branches
  | branch

/-- The role of the payload of a form. -/
def Form.payload : Form → Role
  | literal => .whole
  | reference => .whole
  | application => .application
  | vector => .items
  | lambda => .lambda
  | fixpoint => .expression
  | cases => .cases

namespace Role

/-- The form that the tag among some fields names. -/
def form? (fields : Fields) : Option Form :=
  match Json.field? fields "g" with
  | some (.str tag) => Form.ofTag? tag
  | _ => none

/-- The own keys of an application. A null argument is no argument, so its key does not belong to it. -/
def applicationKeys (fields : Fields) : Table Scalar Role :=
  if Json.fieldOrNull fields "args" = .null then [("fn", expression)]
  else [("fn", expression), ("args", expression)]

/-- The keys that an object has of its own, with the roles of their values, where the object does not stay
as it is. -/
def own : Role → Fields → Option (Table Scalar Role)
  | expression, fields => (form? fields).map fun form => [("g", whole), ("v", form.payload)]
  | application, fields => some (applicationKeys fields)
  | lambda, _ => some [("params", whole), ("body", expression)]
  | cases, _ => some [("expr", expression), ("branches", branches)]
  | branch, _ => some [("pattern", whole), ("result", expression)]
  | _, _ => none

/-- The role of what stands in a list, where the list does not stay as it is. -/
def item? : Role → Option Role
  | items => some expression
  | branches => some branch
  | _ => none

end Role

namespace Json

mutual

/-- A value without the keys that its objects do not have of their own. What is taken as a whole stays as it
is, also where it looks like an expression. -/
def trimmed (role : Role) : Json → Json
  | .scalar k => .scalar k
  | .arr items =>
    match role.item? with
    | none => .arr items
    | some role => .arr (trimmedItems role items)
  | .obj fields =>
    match role.own fields with
    | none => .obj fields
    | some own => .obj (trimmedFields own fields)

def trimmedItems (role : Role) : List Json → List Json
  | [] => []
  | v :: rest => trimmed role v :: trimmedItems role rest

def trimmedFields (own : Table Scalar Role) : List (Scalar × Json) → List (Scalar × Json)
  | [] => []
  | (key, v) :: rest =>
    match Table.get? key own with
    | none => trimmedFields own rest
    | some role => (key, trimmed role v) :: trimmedFields own rest

end

/-- A value somewhere in which an object has a key that is none of its own. -/
inductive HasForeign : Role → Json → Prop
  | here {role fields own key v} : role.own fields = some own → Table.get? key fields = some v →
      Table.get? key own = none → HasForeign role (.obj fields)
  | field {role fields own key v part} : role.own fields = some own → Table.get? key fields = some v →
      Table.get? key own = some part → HasForeign part v → HasForeign role (.obj fields)
  | item {role part items v} : role.item? = some part → v ∈ items → HasForeign part v →
      HasForeign role (.arr items)

variable {role part : Role} {fields parts : Fields} {own : Table Scalar Role} {v w : Json}

/-! ### Trimming -/

theorem trimmedItems_eq_map (items : List Json) :
    trimmedItems role items = items.map (trimmed role) := by
  induction items with
  | nil => rfl
  | cons v rest ih => rw [trimmedItems, ih, List.map_cons]

theorem get?_trimmedFields (key : Scalar) (own : Table Scalar Role) (fields : Fields) :
    Table.get? key (trimmedFields own fields) =
      (Table.get? key own).bind fun role => (Table.get? key fields).map (trimmed role) := by
  induction fields with
  | nil => cases Table.get? key own <;> rfl
  | cons entry rest ih =>
      obtain ⟨k, v⟩ := entry
      rw [trimmedFields, Table.get?_cons]
      by_cases same : (k == key) = true
      · rw [if_pos same, Table.get?_congr same own]
        cases found : Table.get? key own with
        | none =>
            rw [found] at ih
            exact ih
        | some role => exact if_pos same
      · rw [if_neg same, ← ih]
        cases Table.get? k own with
        | none => rfl
        | some role => exact if_neg same

theorem trimmed_obj (h : role.own fields = some own) :
    trimmed role (.obj fields) = .obj (trimmedFields own fields) := by
  simp only [trimmed, h]

theorem trimmed_arr (h : role.item? = some part) (items : List Json) :
    trimmed role (.arr items) = .arr (items.map (trimmed part)) := by
  simp only [trimmed, h, trimmedItems_eq_map]

theorem trimmed_whole (v : Json) : trimmed .whole v = v := by
  cases v <;> rfl

theorem trimmed_of_untagged (h : v.isTagged = false) : trimmed .expression v = v := by
  cases v with
  | scalar k => rfl
  | arr items => rfl
  | obj fields =>
      have untagged := isTagged_eq_false_iff.mp h fields rfl
      simp only [trimmed, Role.own, Role.form?, untagged, Option.map_none]

theorem trimmed_of_item?_none (h : role.item? = none) (items : List Json) :
    trimmed role (.arr items) = .arr items := by
  simp only [trimmed, h]

theorem trimmed_of_own_none (h : role.own fields = none) : trimmed role (.obj fields) = .obj fields := by
  simp only [trimmed, h]

/-- A value with a foreign key is more than what it is trimmed to. -/
theorem HasForeign.not_rearranged (h : v.HasForeign role) : ¬ (v.trimmed role).Rearranged v := by
  induction h with
  | @here _ _ _ key _ shape found foreign =>
      rw [trimmed_obj shape]
      rintro (_ | _ | related)
      have absent := related key
      rw [get?_trimmedFields, found, foreign] at absent
      cases absent
  | @field _ _ _ key _ _ shape found owned _ ih =>
      rw [trimmed_obj shape]
      rintro (_ | _ | related)
      have kept := related key
      rw [get?_trimmedFields, found, owned] at kept
      cases kept with
      | some kept => exact ih kept
  | item shape member _ ih =>
      rw [trimmed_arr shape]
      rintro (_ | related)
      rw [List.forall₂_map_left_iff, List.forall₂_same] at related
      exact ih (related _ member)

/-- A value without foreign keys is what it is trimmed to. -/
theorem rearranged_of_not_hasForeign (h : ¬ v.HasForeign role) : (v.trimmed role).Rearranged v := by
  induction v using Json.induct generalizing role with
  | scalar k => exact .scalar k
  | arr items ih =>
      cases shape : role.item? with
      | none => exact (trimmed_of_item?_none shape items).symm ▸ .refl _
      | some part =>
          rw [trimmed_arr shape]
          refine .arr (List.forall₂_map_left_iff.mpr (List.forall₂_same.mpr fun v member => ?_))
          exact ih v member fun foreign => h (.item shape member foreign)
  | obj fields ih =>
      cases shape : role.own fields with
      | none => exact (trimmed_of_own_none shape).symm ▸ .refl _
      | some own =>
          rw [trimmed_obj shape]
          refine .obj fun key => ?_
          rw [get?_trimmedFields]
          cases found : Table.get? key fields with
          | none => cases Table.get? key own <;> exact .none
          | some v =>
              cases owned : Table.get? key own with
              | none => exact absurd (.here shape found owned) h
              | some part => exact .some (ih key v found fun foreign => h (.field shape found owned foreign))

theorem trimmed_rearranged_iff : (v.trimmed role).Rearranged v ↔ ¬ v.HasForeign role :=
  ⟨fun same foreign => foreign.not_rearranged same, rearranged_of_not_hasForeign⟩

/-- An object is what its own keys are trimmed to. -/
theorem rearranged_of_own
    (h : List.Forall₂ (fun part entry => part.1 = entry.1 ∧
      ∃ v, Table.get? entry.1 fields = some v ∧ part.2.Rearranged (v.trimmed entry.2)) parts own) :
    Rearranged (.obj parts) (.obj (trimmedFields own fields)) := by
  refine .obj fun key => ?_
  rw [get?_trimmedFields]
  induction h with
  | nil => exact .none
  | @cons part entry parts own first _ ih =>
      obtain ⟨same, v, found, related⟩ := first
      rw [Table.get?_cons, Table.get?_cons, same]
      by_cases here : (entry.1 == key) = true
      · rw [if_pos here, if_pos here, ← Table.get?_congr here fields, found]
        exact .some related
      · rw [if_neg here, if_neg here]
        exact ih

end Json

namespace Expr

variable {fields : Fields} {v w : Json} {vs : List Json} {e : Expr}

theorem trimmed_of_carries (form : Form) (carries : Json.Carries fields form.tag v) :
    Json.trimmed .expression (.obj fields) =
      .obj (Json.trimmedFields [("g", .whole), ("v", form.payload)] fields) := by
  refine Json.trimmed_obj ?_
  simp only [Role.own, Role.form?, carries.tagged, Form.ofTag?_eq_some_iff.mpr rfl, Option.map_some]

/-- The document of a form is the trimmed document when its payload is. -/
theorem tagged_rearranged (form : Form) (carries : Json.Carries fields form.tag v)
    (h : w.Rearranged (v.trimmed form.payload)) :
    (tagged form w).Rearranged (Json.trimmed .expression (.obj fields)) := by
  rw [trimmed_of_carries form carries]
  refine Json.rearranged_of_own (.cons ⟨rfl, _, carries.tagged, ?_⟩ (.cons ⟨rfl, v, carries.loaded, h⟩ .nil))
  exact .refl _

/-- What is read from a document is written as the trimmed document. -/
def Rewritten (v : Json) (e : Expr) : Prop :=
  ∃ w, encode e = .ok w ∧ w.Rearranged (v.trimmed .expression)

theorem ReadingItem.rewritten (h : ReadingItem Rewritten v e) :
    ∃ w, WritesItem e w ∧ w.Rearranged (v.trimmed .expression) := by
  cases h with
  | expression _ read =>
      obtain ⟨w, written, related⟩ := read
      exact ⟨w, .inr written, related⟩
  | value untagged =>
      refine ⟨v, .inl rfl, ?_⟩
      rw [Json.trimmed_of_untagged untagged]
      exact .refl v

theorem ReadingBranch.rewritten {b : Json × Expr} (h : ReadingBranch Rewritten v b) :
    ∃ w, WritesBranch b w ∧ w.Rearranged (v.trimmed .branch) := by
  cases h with
  | @mk branch pattern result e here shaped found read =>
      obtain ⟨w, written, related⟩ := read
      refine ⟨_, ⟨w, written, rfl⟩, ?_⟩
      rw [Json.trimmed_obj rfl]
      refine Json.rearranged_of_own (.cons ⟨rfl, pattern, here, ?_⟩ (.cons ⟨rfl, result, found, related⟩ .nil))
      rw [Json.trimmed_whole]
      exact .refl pattern

/-- Writing one level gives the trimmed document when it does so for the parts. -/
theorem Reading.rewritten (h : Reading Rewritten v e) : Rewritten v e := by
  cases h with
  | @literal _ v carries _ =>
      refine ⟨_, rfl, tagged_rearranged .literal carries ?_⟩
      exact (Json.trimmed_whole v).symm ▸ .refl v
  | @reference _ name carries _ =>
      refine ⟨_, rfl, tagged_rearranged .reference carries ?_⟩
      exact .refl _
  | @vector _ vs es carries items =>
      obtain ⟨ws, written, related⟩ := exists_forall₂_between (items.imp fun _ _ => ReadingItem.rewritten)
      refine ⟨tagged .vector (.arr ws), ?_, tagged_rearranged .vector carries ?_⟩
      · rw [encode, encodeItems_eq_ok_iff.mpr written]
        rfl
      · rw [Form.payload, Json.trimmed_arr rfl]
        exact .arr (List.forall₂_map_right_iff.mpr related)
  | @partialApplication _ parts v f carries function read noArgument =>
      obtain ⟨w, written, related⟩ := read
      refine ⟨tagged .application (.obj [("fn", w)]), ?_, tagged_rearranged .application carries ?_⟩
      · rw [encode, written]
        rfl
      · rw [Form.payload, Json.trimmed_obj rfl, Role.applicationKeys, if_pos noArgument]
        exact Json.rearranged_of_own (.cons ⟨rfl, v, function, related⟩ .nil)
  | @application _ parts v f x a carries function read argument given readArgument =>
      obtain ⟨w, written, related⟩ := read
      obtain ⟨y, writtenArgument, relatedArgument⟩ := readArgument
      have given : ¬ Json.fieldOrNull parts "args" = .null := by rwa [Json.fieldOrNull, argument]
      refine ⟨tagged .application (.obj [("fn", w), ("args", y)]), ?_,
        tagged_rearranged .application carries ?_⟩
      · rw [encode, written, writtenArgument]
        rfl
      · rw [Form.payload, Json.trimmed_obj rfl, Role.applicationKeys, if_neg given]
        exact Json.rearranged_of_own
          (.cons ⟨rfl, v, function, related⟩ (.cons ⟨rfl, x, argument, relatedArgument⟩ .nil))
  | @lambda _ parts params v e carries here _ body read =>
      obtain ⟨w, written, related⟩ := read
      refine ⟨tagged .lambda (.obj [("params", .arr params), ("body", w)]), ?_,
        tagged_rearranged .lambda carries ?_⟩
      · rw [encode, written]
        rfl
      · rw [Form.payload, Json.trimmed_obj rfl]
        exact Json.rearranged_of_own (.cons ⟨rfl, _, here, .refl _⟩ (.cons ⟨rfl, v, body, related⟩ .nil))
  | @fixpoint _ v e carries read =>
      obtain ⟨w, written, related⟩ := read
      refine ⟨tagged .fixpoint w, ?_, tagged_rearranged .fixpoint carries related⟩
      rw [encode, written]
      rfl
  | @cases _ parts v e vs branches carries scrutinee read here items =>
      obtain ⟨w, written, related⟩ := read
      obtain ⟨ws, writtenBranches, relatedBranches⟩ :=
        exists_forall₂_between (items.imp fun _ _ => ReadingBranch.rewritten)
      refine ⟨tagged .cases (.obj [("expr", w), ("branches", .arr ws)]), ?_,
        tagged_rearranged .cases carries ?_⟩
      · rw [encode, written, encodeBranches_eq_ok_iff.mpr writtenBranches]
        rfl
      · rw [Form.payload, Json.trimmed_obj rfl]
        refine Json.rearranged_of_own
          (.cons ⟨rfl, v, scrutinee, related⟩ (.cons ⟨rfl, _, here, ?_⟩ .nil))
        rw [Json.trimmed_arr rfl]
        exact .arr (List.forall₂_map_right_iff.mpr relatedBranches)

theorem rewritten_of_decode (h : decode v = .ok e) : Rewritten v e :=
  decode_induct (fun level => Reading.rewritten (level.mono fun _ _ _ => And.right)) h

end Expr

/-- Writing what was read gives the document back without foreign keys and null arguments, up to the order of
keys. So it gives the document itself exactly when the document has neither. -/
theorem encode_decode_trims {v : Json} {e : Expr} (h : Expr.decode v = .ok e) :
    ∃ w, e.encode = .ok w ∧ w.Rearranged (v.trimmed .expression) ∧
      (w.Rearranged v ↔ ¬ v.HasForeign .expression) := by
  obtain ⟨w, written, trims⟩ := Expr.rewritten_of_decode h
  refine ⟨w, written, trims, ?_⟩
  rw [← Json.trimmed_rearranged_iff]
  constructor
  · intro same
    exact trims.symm.trans same
  · intro nothing
    exact trims.trans nothing

/-- A vector of a partial application that has a note and a null argument, and of a value that only looks as
if it had them. -/
def annotatedDocument : Json :=
  Expr.tagged .vector (.arr [
    .obj [("note", .str "seen"), ("v", .obj [("args", .null), ("fn", Expr.tagged .reference (.str "f"))]),
      ("g", .str "app")],
    .obj [("h", .obj [("note", .null), ("g", .str "app"), ("v", .obj [("args", .null)])])]])

/-- The term of `annotatedDocument`. -/
def annotatedTerm : Expr :=
  .vector [.application (.reference (.str "f")) none,
    .raw (.obj [("h", .obj [("note", .null), ("g", .str "app"), ("v", .obj [("args", .null)])])])]

theorem encode_decode_trims_annotated :
    Expr.decode annotatedDocument = .ok annotatedTerm ∧
      ∃ w, annotatedTerm.encode = .ok w ∧ w.Rearranged (annotatedDocument.trimmed .expression) ∧
        (w.Rearranged annotatedDocument ↔ ¬ annotatedDocument.HasForeign .expression) := by
  have read : Expr.decode annotatedDocument = .ok annotatedTerm := rfl
  exact ⟨read, encode_decode_trims read⟩

example : annotatedDocument.trimmed .expression =
    Expr.tagged .vector (.arr [
      .obj [("v", .obj [("fn", Expr.tagged .reference (.str "f"))]), ("g", .str "app")],
      .obj [("h", .obj [("note", .null), ("g", .str "app"), ("v", .obj [("args", .null)])])]]) := rfl

end ExprRegistry
