import ExprRegistry.Expr.Metrics
import ExprRegistry.Proofs.Data.Prefix
import ExprRegistry.Proofs.Expr.Path
import ExprRegistry.Proofs.Expr.Reading

/-!
Where expressions stand in a document. A position is a path of which every step leads from a document of its
form to a part that counts as an expression. The expression that is read has the same paths, and its measures
are those of the tree that they make up. Main statement: `Expr.metrics_count_positions`.
-/

namespace ExprRegistry

/-! ### Positions in documents -/

namespace Step

/-- The form of what a step leads from. -/
def form : Step → Form
  | function => .application
  | argument => .application
  | body => .lambda
  | inner => .fixpoint
  | scrutinee => .cases
  | item _ => .vector
  | result _ => .cases

/-- Whether a value counts as an expression where a step leads: null is no argument, and a value without a
tag is an item that stands for itself. -/
def admits : Step → Json → Bool
  | argument, v => decide (v ≠ .null)
  | item _, v => v.isTagged
  | _, _ => true

end Step

namespace Json

/-- The expression one step below a document. -/
def child? (step : Step) (v : Json) : Option Json :=
  if access? (.key "g") v = some (.str step.form.tag) then
    (follow? step.accesses v).filter step.admits
  else none

/-- The expression that a path leads to. -/
def at? (path : Path) (v : Json) : Option Json := path.foldlM (fun w step => child? step w) v

def IsPosition (v : Json) (path : Path) : Prop := (at? path v).isSome = true

instance (v : Json) (path : Path) : Decidable (IsPosition v path) :=
  inferInstanceAs (Decidable ((at? path v).isSome = true))

/-- Positions from the root of a document down, each one step below the one before. -/
structure IsDescent (v : Json) (positions : List Path) : Prop where
  rooted : positions.head? = some []
  placed : ∀ path ∈ positions, v.IsPosition path
  linked : positions.IsChain Extends

variable {fields : Fields} {tag : String} {payload v : Json} {step : Step} {path rest : Path}

theorem at?_cons : at? (step :: rest) v = (child? step v).bind (at? rest) := List.foldlM_cons

theorem at?_append : at? (path ++ rest) v = (at? path v).bind (at? rest) := List.foldlM_append

theorem IsPosition.of_append (h : v.IsPosition (path ++ rest)) : v.IsPosition path := by
  rw [IsPosition, at?_append] at h
  exact Option.isSome_of_isSome_bind h

theorem IsPosition.descent (h : v.IsPosition path) : v.IsDescent path.inits where
  rooted := by cases path <;> rfl
  placed := fun p front => by
    obtain ⟨rest, rfl⟩ := (List.mem_inits p path).mp front
    exact h.of_append
  linked := isChain_inits path

/-- A descent goes as deep as it is long. -/
theorem IsDescent.exists_position {positions : List Path} (h : v.IsDescent positions) :
    ∃ path, v.IsPosition path ∧ positions.length = path.length + 1 := by
  obtain ⟨others, rfl⟩ := List.head?_eq_some_iff.mp h.rooted
  obtain ⟨last, member, length⟩ := exists_mem_of_isChain h.linked
  exact ⟨last, h.placed last member, by rw [length, List.length_cons, List.length_nil, Nat.zero_add]⟩

/-! ### The steps from a document with a tag and a payload -/

theorem child?_eq_none (carries : Carries fields tag payload) (other : tag ≠ step.form.tag) :
    child? step (.obj fields) = none := by
  rw [child?, access?, carries.tagged, if_neg]
  simpa using other

theorem child?_eq (step : Step) (carries : Carries fields step.form.tag payload) :
    child? step (.obj fields) = (follow? step.accesses.tail payload).filter step.admits := by
  obtain ⟨_, rest, spelled, rfl, _⟩ := step.marked_accesses
  rw [child?, access?, carries.tagged, if_pos rfl, spelled, List.tail_cons]
  rw [follow?, List.foldlM_cons, access?, carries.loaded]
  rfl

theorem child?_field (step : Step) (key : String) {parts : Fields}
    (carries : Carries fields step.form.tag (.obj parts)) (leads : step.accesses = [.key "v", .key key]) :
    child? step (.obj fields) = (field? parts key).filter step.admits := by
  rw [child?_eq step carries, leads, List.tail_cons, follow?, List.foldlM_cons, access?]
  cases field? parts key <;> rfl

theorem child?_item {i : Nat} {vs : List Json} (carries : Carries fields "vec" (.arr vs)) :
    child? (.item i) (.obj fields) = vs[i]?.filter isTagged := by
  rw [child?_eq (.item i) carries]
  change (follow? [.index i] (.arr vs)).filter isTagged = _
  rw [follow?, List.foldlM_cons, access?]
  cases vs[i]? <;> rfl

theorem child?_result {i : Nat} {parts : Fields} {vs : List Json}
    (carries : Carries fields "match" (.obj parts)) (branches : field? parts "branches" = some (.arr vs)) :
    child? (.result i) (.obj fields) = vs[i]?.bind (access? (.key "result")) := by
  rw [child?_eq (.result i) carries]
  change (follow? [.key "branches", .index i, .key "result"] (.obj parts)).filter (fun _ => true) = _
  have listed : access? (.key "branches") (.obj parts) = some (.arr vs) := branches
  have picked : access? (.index i) (.arr vs) = vs[i]? := rfl
  simp only [follow?, List.foldlM_cons, List.foldlM_nil, listed, picked, Option.bind_eq_bind,
    Option.bind_some, Option.pure_def, Option.bind_fun_some]
  cases vs[i]?.bind (access? (.key "result")) <;> rfl

end Json

/-! ### Positions in expressions -/

namespace Path

/-- The paths that start with a step and go on with one of its paths. -/
def fan (branches : List (Step × List Path)) : List Path :=
  branches.flatMap fun branch => branch.2.map (branch.1 :: ·)

/-- A step for each of the lists of paths, by its index. -/
def numbered (step : Nat → Step) (lists : List (List Path)) : List (Step × List Path) :=
  lists.mapIdx fun i paths => (step i, paths)

variable {branches : List (Step × List Path)} {step : Step} {path : Path}

theorem nil_not_mem_fan : [] ∉ fan branches := by simp [fan]

theorem cons_mem_fan : step :: path ∈ fan branches ↔ ∃ paths, (step, paths) ∈ branches ∧ path ∈ paths := by
  simp [fan]

theorem length_fan : (fan branches).length = (branches.map Prod.snd).flatten.length := by
  induction branches with
  | nil => rfl
  | cons branch rest ih =>
      rw [fan] at ih
      rw [fan, List.flatMap_cons, List.length_append, List.length_map, ih, List.map_cons, List.flatten_cons,
        List.length_append]

theorem nodup_fan (steps : (branches.map Prod.fst).Nodup)
    (each : ∀ paths ∈ branches.map Prod.snd, paths.Nodup) : (fan branches).Nodup := by
  induction branches with
  | nil => exact List.nodup_nil
  | cons branch rest ih =>
      rw [List.map_cons, List.nodup_cons] at steps
      rw [List.map_cons, List.forall_mem_cons] at each
      rw [fan, List.flatMap_cons, List.nodup_append']
      refine ⟨each.1.map List.cons_injective, ih steps.2 each.2, ?_⟩
      intro path here there
      obtain ⟨p, _, rfl⟩ := List.mem_map.mp here
      obtain ⟨paths, member, _⟩ := cons_mem_fan.mp there
      exact steps.1 (List.mem_map.mpr ⟨_, member, rfl⟩)

theorem nodup_rooted (steps : (branches.map Prod.fst).Nodup)
    (each : ∀ paths ∈ branches.map Prod.snd, paths.Nodup) : ([] :: fan branches).Nodup :=
  List.nodup_cons.mpr ⟨nil_not_mem_fan, nodup_fan steps each⟩

variable {number : Nat → Step} {lists : List (List Path)}

theorem mem_numbered {branch : Step × List Path} :
    branch ∈ numbered number lists ↔ ∃ i paths, lists[i]? = some paths ∧ (number i, paths) = branch := by
  simp only [numbered, List.mem_mapIdx, List.getElem?_eq_some_iff]
  constructor
  · rintro ⟨i, inside, same⟩
    exact ⟨i, _, ⟨inside, rfl⟩, same⟩
  · rintro ⟨i, _, ⟨inside, rfl⟩, same⟩
    exact ⟨i, inside, same⟩

theorem snd_numbered : (numbered number lists).map Prod.snd = lists := by
  apply List.ext_getElem <;> simp [numbered]

theorem nodup_numbered (distinct : Function.Injective number) :
    ((numbered number lists).map Prod.fst).Nodup := by
  have steps : (numbered number lists).map Prod.fst = (List.range lists.length).map number := by
    apply List.ext_getElem <;> simp [numbered]
  rw [steps]
  exact List.nodup_range.map distinct

end Path

namespace Expr

/-- The expression one step below another. A value among the items of a vector is none. -/
def child? : Step → Expr → Option Expr
  | .function, application f _ => some f
  | .argument, application _ a => a
  | .body, lambda _ body => some body
  | .inner, fixpoint inner => some inner
  | .scrutinee, cases e _ => some e
  | .item i, vector items => items[i]?.filter isExpression
  | .result i, cases _ branches => branches[i]?.map Prod.snd
  | _, _ => none

mutual

/-- The paths to the expressions in a term, itself included. -/
def paths : Expr → List Path
  | literal _ => [[]]
  | reference _ => [[]]
  | vector items => [] :: Path.fan (Path.numbered .item (pathsItems items))
  | application f none => [] :: Path.fan [(.function, paths f)]
  | application f (some a) => [] :: Path.fan [(.function, paths f), (.argument, paths a)]
  | lambda _ body => [] :: Path.fan [(.body, paths body)]
  | fixpoint inner => [] :: Path.fan [(.inner, paths inner)]
  | cases e branches =>
    [] :: Path.fan ((.scrutinee, paths e) :: Path.numbered .result (pathsResults branches))
  | raw _ => []
  | branch _ _ => []

def pathsItems : List Expr → List (List Path)
  | [] => []
  | e :: rest => paths e :: pathsItems rest

def pathsResults : List (Json × Expr) → List (List Path)
  | [] => []
  | (_, e) :: rest => paths e :: pathsResults rest

end

mutual

theorem length_paths : (e : Expr) → e.paths.length = e.complexity
  | literal _ => rfl
  | reference _ => rfl
  | vector items => by
      simp [paths, complexity, Path.length_fan, Path.snd_numbered, length_pathsItems items, Nat.add_comm]
  | application f none => by simp [paths, complexity, Path.length_fan, length_paths f, Nat.add_comm]
  | application f (some a) => by
      simp [paths, complexity, Path.length_fan, length_paths f, length_paths a, Nat.add_comm]
  | lambda _ body => by simp [paths, complexity, Path.length_fan, length_paths body, Nat.add_comm]
  | fixpoint inner => by simp [paths, complexity, Path.length_fan, length_paths inner, Nat.add_comm]
  | cases e branches => by
      simp [paths, complexity, Path.length_fan, Path.snd_numbered, length_paths e,
        length_pathsResults branches, Nat.add_comm]
  | raw _ => rfl
  | branch _ _ => rfl

theorem length_pathsItems : (items : List Expr) →
    (pathsItems items).flatten.length = complexityItems items
  | [] => rfl
  | e :: rest => by
      rw [pathsItems, complexityItems, List.flatten_cons, List.length_append, length_paths e,
        length_pathsItems rest]

theorem length_pathsResults : (branches : List (Json × Expr)) →
    (pathsResults branches).flatten.length = complexityResults branches
  | [] => rfl
  | (_, e) :: rest => by
      rw [pathsResults, complexityResults, List.flatten_cons, List.length_append, length_paths e,
        length_pathsResults rest]

end

mutual

theorem nodup_paths : (e : Expr) → e.paths.Nodup
  | literal _ => List.nodup_singleton _
  | reference _ => List.nodup_singleton _
  | vector items => by
      refine Path.nodup_rooted (Path.nodup_numbered fun _ _ same => Step.item.inj same) ?_
      rw [Path.snd_numbered]
      exact nodup_pathsItems items
  | application f none => Path.nodup_rooted (by simp) (by simpa using nodup_paths f)
  | application f (some a) =>
      Path.nodup_rooted (by simp) (by simpa using ⟨nodup_paths f, nodup_paths a⟩)
  | lambda _ body => Path.nodup_rooted (by simp) (by simpa using nodup_paths body)
  | fixpoint inner => Path.nodup_rooted (by simp) (by simpa using nodup_paths inner)
  | cases e branches => by
      refine Path.nodup_rooted (List.nodup_cons.mpr ⟨?_, ?_⟩) ?_
      · simp [Path.numbered]
      · exact Path.nodup_numbered fun _ _ same => Step.result.inj same
      · rw [List.map_cons, Path.snd_numbered]
        exact List.forall_mem_cons.mpr ⟨nodup_paths e, nodup_pathsResults branches⟩
  | raw _ => List.nodup_nil
  | branch _ _ => List.nodup_nil

theorem nodup_pathsItems : (items : List Expr) → ∀ paths ∈ pathsItems items, paths.Nodup
  | [] => nofun
  | e :: rest => List.forall_mem_cons.mpr ⟨nodup_paths e, nodup_pathsItems rest⟩

theorem nodup_pathsResults : (branches : List (Json × Expr)) → ∀ paths ∈ pathsResults branches, paths.Nodup
  | [] => nofun
  | (_, e) :: rest => List.forall_mem_cons.mpr ⟨nodup_paths e, nodup_pathsResults rest⟩

end

theorem pathsItems_eq (items : List Expr) : pathsItems items = items.map paths := by
  induction items with
  | nil => rfl
  | cons e rest ih => rw [pathsItems, ih, List.map_cons]

theorem pathsResults_eq (branches : List (Json × Expr)) :
    pathsResults branches = branches.map fun b => b.2.paths := by
  induction branches with
  | nil => rfl
  | cons b rest ih => rw [pathsResults, ih, List.map_cons]

variable {e f : Expr} {step : Step} {path : Path} {v : Json}

theorem nil_mem_paths : [] ∈ e.paths ↔ e.isExpression = true := by
  cases e with
  | application f a => cases a <;> simp [paths, isExpression, form?]
  | _ => simp [paths, isExpression, form?]

theorem isExpression_of_mem_paths (h : path ∈ e.paths) : e.isExpression = true := by
  cases e with
  | raw v => cases h
  | branch pattern result => cases h
  | _ => rfl

theorem cons_mem_paths_vector {items : List Expr} :
    step :: path ∈ (vector items).paths ↔ ∃ f, child? step (vector items) = some f ∧ path ∈ f.paths := by
  simp only [paths, pathsItems_eq, List.mem_cons, List.cons_ne_nil, false_or, Path.cons_mem_fan,
    Path.mem_numbered, List.getElem?_map, Option.map_eq_some_iff]
  constructor
  · rintro ⟨_, ⟨i, _, ⟨f, found, rfl⟩, same⟩, member⟩
    cases same
    exact ⟨f, by simp [child?, found, isExpression_of_mem_paths member], member⟩
  · rintro ⟨f, found, member⟩
    cases step with
    | item i =>
        obtain ⟨found, _⟩ := Option.filter_eq_some_iff.mp found
        exact ⟨_, ⟨i, _, ⟨f, found, rfl⟩, rfl⟩, member⟩
    | _ => cases found

theorem cons_mem_paths_cases {branches : List (Json × Expr)} :
    step :: path ∈ (cases e branches).paths ↔
      ∃ f, child? step (cases e branches) = some f ∧ path ∈ f.paths := by
  simp only [paths, pathsResults_eq, List.mem_cons, List.cons_ne_nil, false_or, Path.cons_mem_fan,
    Path.mem_numbered, List.getElem?_map, Option.map_eq_some_iff]
  constructor
  · rintro ⟨_, same | ⟨i, _, ⟨b, found, rfl⟩, same⟩, member⟩
    · cases same
      exact ⟨e, rfl, member⟩
    · cases same
      exact ⟨b.2, by simp [child?, found], member⟩
  · rintro ⟨f, found, member⟩
    cases step with
    | scrutinee =>
        cases found
        exact ⟨_, .inl rfl, member⟩
    | result i =>
        obtain ⟨b, here, rfl⟩ := Option.map_eq_some_iff.mp found
        exact ⟨_, .inr ⟨i, _, ⟨b, here, rfl⟩, rfl⟩, member⟩
    | _ => cases found

/-- The paths of an expression go on in the expressions one step below it. -/
theorem cons_mem_paths : step :: path ∈ e.paths ↔ ∃ f, child? step e = some f ∧ path ∈ f.paths := by
  cases e with
  | vector items => exact cons_mem_paths_vector
  | cases e branches => exact cons_mem_paths_cases
  | application f a =>
      cases a <;> cases step <;> simp [paths, Path.cons_mem_fan, child?]
  | lambda params body => cases step <;> simp [paths, Path.cons_mem_fan, child?]
  | fixpoint inner => cases step <;> simp [paths, Path.cons_mem_fan, child?]
  | _ => simp [paths, child?]

/-! ### The positions of a document are those of its expression -/

theorem isExpression_of_decode (h : decode v = .ok e) : e.isExpression = true := by
  cases reading_of_decode h <;> rfl

theorem rel_item {vs : List Json} {items : List Expr} (h : List.Forall₂ (ReadingItem Reads) vs items)
    (i : Nat) : Option.Rel Reads (vs[i]?.filter Json.isTagged) (items[i]?.filter isExpression) := by
  induction h generalizing i with
  | nil => exact .none
  | @cons v e _ _ first _ ih =>
      cases i with
      | succ i => exact ih i
      | zero =>
          cases first with
          | expression tagged read =>
              rw [List.getElem?_cons_zero, List.getElem?_cons_zero, Option.filter_some, Option.filter_some,
                if_pos tagged, if_pos (isExpression_of_decode read)]
              exact .some read
          | value untagged =>
              rw [List.getElem?_cons_zero, List.getElem?_cons_zero, Option.filter_some, Option.filter_some,
                if_neg (by simp [untagged]), if_neg (by simp [isExpression, form?])]
              exact .none

theorem rel_result {vs : List Json} {branches : List (Json × Expr)}
    (h : List.Forall₂ (ReadingBranch Reads) vs branches) (i : Nat) :
    Option.Rel Reads (vs[i]?.bind (Json.access? (.key "result"))) (branches[i]?.map Prod.snd) := by
  induction h generalizing i with
  | nil => exact .none
  | cons first _ ih =>
      cases i with
      | succ i => exact ih i
      | zero =>
          cases first with
          | mk pattern shaped result read => simpa [Json.access?, result] using Option.Rel.some read

section

variable {fields parts : Fields} {tag key : String} {payload : Json}

theorem rel_elsewhere (carries : Json.Carries fields tag payload) (other : tag ≠ step.form.tag) :
    Option.Rel Reads (Json.child? step (.obj fields)) none := by
  rw [Json.child?_eq_none carries other]
  exact .none

theorem rel_field (carries : Json.Carries fields step.form.tag (.obj parts))
    (leads : step.accesses = [.key "v", .key key]) (found : Json.field? parts key = some v)
    (admitted : step.admits v = true) (read : Reads v e) :
    Option.Rel Reads (Json.child? step (.obj fields)) (some e) := by
  rw [Json.child?_field step key carries leads, found, Option.filter_some, if_pos admitted]
  exact .some read

theorem rel_no_argument (carries : Json.Carries fields "app" (.obj parts))
    (h : Json.fieldOrNull parts "args" = .null) :
    Option.Rel Reads (Json.child? .argument (.obj fields)) none := by
  rw [Json.child?_field .argument "args" carries rfl]
  rw [Json.fieldOrNull] at h
  cases given : Json.field? parts "args" with
  | none => exact .none
  | some w =>
      rw [given] at h
      cases h
      exact .none

end

/-- One step below a document stands what is read as the expression one step below. -/
theorem rel_child (h : decode v = .ok e) (step : Step) :
    Option.Rel Reads (Json.child? step v) (child? step e) := by
  cases reading_of_decode h with
  | literal carries => cases step <;> exact rel_elsewhere carries (by simp [Step.form, Form.tag])
  | reference carries => cases step <;> exact rel_elsewhere carries (by simp [Step.form, Form.tag])
  | vector carries items =>
      cases step with
      | item i =>
          rw [Json.child?_item carries]
          exact rel_item items i
      | _ => exact rel_elsewhere carries (by simp [Step.form, Form.tag])
  | partialApplication carries function read noArgument =>
      cases step with
      | function => exact rel_field carries rfl function rfl read
      | argument => exact rel_no_argument carries noArgument
      | _ => exact rel_elsewhere carries (by simp [Step.form, Form.tag])
  | application carries function read argument given readArgument =>
      cases step with
      | function => exact rel_field carries rfl function rfl read
      | argument => exact rel_field carries rfl argument (decide_eq_true given) readArgument
      | _ => exact rel_elsewhere carries (by simp [Step.form, Form.tag])
  | lambda carries _ _ body read =>
      cases step with
      | body => exact rel_field carries rfl body rfl read
      | _ => exact rel_elsewhere carries (by simp [Step.form, Form.tag])
  | fixpoint carries read =>
      cases step with
      | inner =>
          rw [Json.child?_eq .inner carries]
          exact .some read
      | _ => exact rel_elsewhere carries (by simp [Step.form, Form.tag])
  | cases carries scrutinee read branches items =>
      cases step with
      | scrutinee => exact rel_field carries rfl scrutinee rfl read
      | result i =>
          rw [Json.child?_result carries branches]
          exact rel_result items i
      | _ => exact rel_elsewhere carries (by simp [Step.form, Form.tag])

theorem isPosition_iff_of_decode (h : decode v = .ok e) : v.IsPosition path ↔ path ∈ e.paths := by
  induction path generalizing v e with
  | nil => exact iff_of_true rfl (nil_mem_paths.mpr (isExpression_of_decode h))
  | cons step rest ih =>
      rw [cons_mem_paths, Json.IsPosition, Json.at?_cons]
      have related := rel_child h step
      generalize Json.child? step v = below, child? step e = part at related ⊢
      cases related with
      | none => simp
      | some read => simpa [Json.IsPosition] using ih read

theorem paths_closed (h : decode v = .ok e) : ∀ p q, p ++ q ∈ e.paths → p ∈ e.paths := by
  intro p q member
  rw [← isPosition_iff_of_decode h] at member ⊢
  exact member.of_append

/-! ### The longest paths -/

theorem depth_pos_iff : 0 < e.depth ↔ e.isExpression = true := by
  cases e with
  | application f a => cases a <;> simp [depth, isExpression, form?, Nat.add_comm 1]
  | _ => simp [depth, isExpression, form?, Nat.add_comm 1]

theorem depthResults_eq (branches : List (Json × Expr)) :
    depthResults branches = depthItems (branches.map Prod.snd) := by
  induction branches with
  | nil => rfl
  | cons b rest ih => rw [depthResults, ih, List.map_cons, depthItems]

theorem depth_le_depthItems {items : List Expr} (h : f ∈ items) : f.depth ≤ depthItems items := by
  induction h with
  | head => exact Nat.le_max_left _ _
  | tail _ _ ih => exact Nat.le_trans ih (Nat.le_max_right _ _)

theorem exists_depthItems {items : List Expr} (h : 0 < depthItems items) :
    ∃ (i : Nat) (f : Expr), items[i]? = some f ∧ f.depth = depthItems items := by
  induction items with
  | nil => cases h
  | cons e rest ih =>
      rw [depthItems] at h ⊢
      rcases Nat.le_total (depthItems rest) e.depth with deeper | deeper
      · exact ⟨0, e, rfl, (Nat.max_eq_left deeper).symm⟩
      · rw [Nat.max_eq_right deeper] at h ⊢
        obtain ⟨i, f, found, same⟩ := ih h
        exact ⟨i + 1, f, found, same⟩

theorem depth_lt_of_child? (h : child? step e = some f) : f.depth < e.depth := by
  unfold child? at h
  split at h
  case h_1 g a =>
    cases h
    cases a <;> simp only [depth] <;> omega
  case h_2 g a =>
    cases h
    simp only [depth]
    omega
  case h_6 i items =>
    obtain ⟨found, _⟩ := Option.filter_eq_some_iff.mp h
    have inside := depth_le_depthItems (List.mem_of_getElem? found)
    simp only [depth]
    omega
  case h_7 i scrutinee branches =>
    obtain ⟨b, found, rfl⟩ := Option.map_eq_some_iff.mp h
    have inside := depth_le_depthItems (List.mem_map_of_mem (f := Prod.snd) (List.mem_of_getElem? found))
    simp only [depth, depthResults_eq]
    omega
  case h_8 => cases h
  all_goals
    cases h
    simp only [depth]
    omega

theorem exists_child_of_lt_depth (h : 1 < e.depth) :
    ∃ step f, child? step e = some f ∧ e.depth = f.depth + 1 := by
  cases e with
  | literal v => simp [depth] at h
  | reference name => simp [depth] at h
  | vector items =>
      rw [depth] at h
      obtain ⟨i, f, found, deepest⟩ := exists_depthItems (by omega : 0 < depthItems items)
      have counted : f.isExpression = true := depth_pos_iff.mp (by omega)
      refine ⟨.item i, f, by simp [child?, found, counted], ?_⟩
      rw [depth, deepest, Nat.add_comm]
  | application f a =>
      cases a with
      | none => exact ⟨.function, f, rfl, Nat.add_comm 1 _⟩
      | some a =>
          rcases Nat.le_total a.depth f.depth with deeper | deeper
          · exact ⟨.function, f, rfl, by rw [depth, Nat.max_eq_left deeper, Nat.add_comm]⟩
          · exact ⟨.argument, a, rfl, by rw [depth, Nat.max_eq_right deeper, Nat.add_comm]⟩
  | lambda params body => exact ⟨.body, body, rfl, Nat.add_comm 1 _⟩
  | fixpoint inner => exact ⟨.inner, inner, rfl, Nat.add_comm 1 _⟩
  | cases e branches =>
      rw [depth, depthResults_eq] at h ⊢
      rcases Nat.le_total (depthItems (branches.map Prod.snd)) e.depth with deeper | deeper
      · exact ⟨.scrutinee, e, rfl, by rw [Nat.max_eq_left deeper, Nat.add_comm]⟩
      · rw [Nat.max_eq_right deeper] at h ⊢
        obtain ⟨i, f, found, deepest⟩ := exists_depthItems (by omega : 0 < depthItems (branches.map Prod.snd))
        rw [List.getElem?_map] at found
        exact ⟨.result i, f, found, by rw [deepest, Nat.add_comm]⟩
  | raw v => simp [depth] at h
  | branch pattern result => simp [depth] at h

theorem length_lt_depth (h : path ∈ e.paths) : path.length < e.depth := by
  induction path generalizing e with
  | nil => exact depth_pos_iff.mpr (nil_mem_paths.mp h)
  | cons step rest ih =>
      obtain ⟨f, child, member⟩ := cons_mem_paths.mp h
      exact Nat.lt_of_le_of_lt (ih member) (depth_lt_of_child? child)

theorem exists_deepest {e : Expr} (h : e.isExpression = true) : ∃ path ∈ e.paths, e.depth = path.length + 1 := by
  by_cases deeper : 1 < e.depth
  · obtain ⟨step, f, child, one⟩ := exists_child_of_lt_depth deeper
    obtain ⟨path, member, length⟩ := exists_deepest (depth_pos_iff.mp (by omega : 0 < f.depth))
    exact ⟨step :: path, cons_mem_paths.mpr ⟨f, child, member⟩, by rw [one, length, List.length_cons]⟩
  · have some := depth_pos_iff.mpr h
    exact ⟨[], nil_mem_paths.mpr h, by rw [List.length_nil]; omega⟩
termination_by e.depth

/-- The measures of what a document is read as count its positions: the complexity all of them, the depth
those of a longest descent. The two are the same when there is never more than one position a step below. -/
theorem metrics_count_positions (h : decode v = .ok e) :
    (∃ positions : List Path, positions.Nodup ∧ (∀ path, path ∈ positions ↔ v.IsPosition path) ∧
      positions.length = e.complexity) ∧
    (∃ descent, v.IsDescent descent ∧ descent.length = e.depth) ∧
    (∀ descent, v.IsDescent descent → descent.length ≤ e.depth) ∧
    1 ≤ e.depth ∧ e.depth ≤ e.complexity ∧
    (e.depth = e.complexity ↔
      ∀ path s t, v.IsPosition (path ++ [s]) → v.IsPosition (path ++ [t]) → s = t) := by
  have same (path : Path) : path ∈ e.paths ↔ v.IsPosition path := (isPosition_iff_of_decode h).symm
  have closed := paths_closed h
  obtain ⟨deepest, member, depth⟩ := exists_deepest (isExpression_of_decode h)
  have longest (path : Path) (inside : path ∈ e.paths) : path.length ≤ deepest.length := by
    have short := length_lt_depth inside
    omega
  refine ⟨⟨e.paths, nodup_paths e, same, length_paths e⟩,
    ⟨deepest.inits, ((same deepest).mp member).descent, ?_⟩, ?_, ?_, ?_, ?_⟩
  · rw [List.length_inits, depth]
  · intro descent down
    obtain ⟨path, placed, length⟩ := down.exists_position
    rw [length]
    exact length_lt_depth ((same path).mpr placed)
  · exact depth_pos_iff.mpr (isExpression_of_decode h)
  · rw [depth, ← length_paths]
    exact length_lt_of_closed closed member
  · rw [depth, ← length_paths, length_eq_iff_unforked (nodup_paths e) closed member longest]
    simp only [same]

/-- A function applied to a vector of a literal that only looks like a document, a value without a tag and a
partial application with a null argument. -/
def layeredDocument : Json :=
  tagged .application (.obj [("fn", tagged .reference (.str "f")), ("args", tagged .vector (.arr [
    tagged .literal (.arr [tagged .reference (.str "x")]),
    .obj [("v", tagged .reference (.str "y"))],
    tagged .application (.obj [("fn", tagged .reference (.str "g")), ("args", .null)])]))])

/-- The term of `layeredDocument`. -/
def layeredTerm : Expr :=
  .application (.reference (.str "f")) (some (.vector [
    .literal (.arr [tagged .reference (.str "x")]),
    .raw (.obj [("v", tagged .reference (.str "y"))]),
    .application (.reference (.str "g")) none]))

theorem metrics_count_positions_layered :
    decode layeredDocument = .ok layeredTerm ∧
    (∃ positions : List Path, positions.Nodup ∧
      (∀ path, path ∈ positions ↔ layeredDocument.IsPosition path) ∧ positions.length = 6) ∧
    (∃ descent, layeredDocument.IsDescent descent ∧ descent.length = 4) ∧
    (∀ descent, layeredDocument.IsDescent descent → descent.length ≤ 4) ∧
    ∃ path s t, layeredDocument.IsPosition (path ++ [s]) ∧ layeredDocument.IsPosition (path ++ [t]) ∧ s ≠ t := by
  have read : decode layeredDocument = .ok layeredTerm := rfl
  obtain ⟨all, reached, longest, _, _, unforked⟩ := metrics_count_positions read
  refine ⟨read, all, reached, longest, ?_⟩
  by_contra single
  push Not at single
  have same : layeredTerm.depth = layeredTerm.complexity := unforked.mpr single
  cases same

end Expr

end ExprRegistry
