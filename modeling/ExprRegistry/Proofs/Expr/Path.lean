import ExprRegistry.Expr.Fault
import ExprRegistry.Proofs.Data.Marked
import ExprRegistry.Proofs.Json.Parts
import ExprRegistry.Proofs.Text.Digits

/-!
Paths into documents. A step goes down through keys and indices, and the text of a path writes them down in
order. Main statement: the text of a path tells the path, so it leads to one part of a document at most.
-/

namespace ExprRegistry

/-- One move down into a document. -/
inductive Access where
  | key (name : String)
  | index (i : Nat)

/-- A move as it is written. -/
def Access.chars : Access → List Char
  | key name => '.' :: name.toList
  | index i => '[' :: ((toString i).toList ++ [']'])

/-- The moves of a step. -/
def Step.accesses : Step → List Access
  | function => [.key "v", .key "fn"]
  | argument => [.key "v", .key "args"]
  | body => [.key "v", .key "body"]
  | inner => [.key "v"]
  | scrutinee => [.key "v", .key "expr"]
  | item i => [.key "v", .index i]
  | result i => [.key "v", .key "branches", .index i, .key "result"]

/-- The moves of a path, one after the other. -/
def Path.accesses (path : Path) : List Access := path.flatMap Step.accesses

namespace Json

def access? : Access → Json → Option Json
  | .key name, .obj fields => field? fields name
  | .index i, .arr items => items[i]?
  | _, _ => none

/-- The part of a document that moves lead to. -/
def follow? (accesses : List Access) (v : Json) : Option Json :=
  accesses.foldlM (fun w access => access? access w) v

/-- The text of a path leads from a document to a part of it. -/
def LeadsTo (text : String) (v w : Json) : Prop :=
  ∃ path : Path, path.text = text ∧ follow? path.accesses v = some w

theorem follow?_append (front back : List Access) (v : Json) :
    follow? (front ++ back) v = (follow? front v).bind (follow? back) := List.foldlM_append

end Json

/-! ### Reading the text of a path -/

/-- The characters that moves start with. -/
def Access.Opens (c : Char) : Prop := c = '.' ∨ c = '['

instance : DecidablePred Access.Opens := fun c => inferInstanceAs (Decidable (c = '.' ∨ c = '['))

theorem Access.not_opens_of_digit {i : Nat} {c : Char} (h : c ∈ (toString i).toList) : ¬ Opens c := by
  rw [Text.toList_toString] at h
  have digit : c.isDigit = true := Nat.isDigit_of_mem_toDigits (by decide) (by decide) h
  rintro (rfl | rfl) <;> cases digit

theorem Access.chars_injective : Function.Injective chars := by
  intro a b h
  cases a with
  | key name =>
      cases b with
      | key other => rw [String.toList_inj.mp (List.cons.inj h).2]
      | index j => cases h
  | index i =>
      cases b with
      | key other => cases h
      | index j =>
          have digits := List.append_cancel_right (List.cons.inj h).2
          rw [Text.toList_toString, Text.toList_toString] at digits
          have same := congrArg (Nat.ofDigitChars 10 · 0) digits
          simp only [Nat.ofDigitChars_ten_toDigits] at same
          rw [same]

theorem Access.marked_key (name : String) (h : ∀ c ∈ name.toList, ¬ Opens c) :
    Marked Opens (key name).chars := ⟨'.', _, rfl, .inl rfl, h⟩

theorem Access.marked_index (i : Nat) : Marked Opens (index i).chars := by
  refine ⟨'[', _, rfl, .inr rfl, fun c member => ?_⟩
  rcases List.mem_append.mp member with digit | last
  · exact not_opens_of_digit digit
  · rw [List.mem_singleton.mp last]
    decide

namespace Step

theorem chars_eq (step : Step) : '.' :: step.text.toList = step.accesses.flatMap Access.chars := by
  cases step <;> simp [text, accesses, Access.chars]

/-- The moves of a step are written so that each of them can be told. -/
theorem marked_chars (step : Step) : ∀ access ∈ step.accesses, Marked Access.Opens access.chars := by
  have payload := Access.marked_key "v" (by simp [Access.Opens])
  have pair {access : Access} (h : Marked Access.Opens access.chars) :
      ∀ a ∈ [.key "v", access], Marked Access.Opens a.chars :=
    List.forall_mem_cons.mpr ⟨payload, List.forall_mem_singleton.mpr h⟩
  cases step with
  | function => exact pair (Access.marked_key "fn" (by simp [Access.Opens]))
  | argument => exact pair (Access.marked_key "args" (by simp [Access.Opens]))
  | body => exact pair (Access.marked_key "body" (by simp [Access.Opens]))
  | inner => exact List.forall_mem_singleton.mpr payload
  | scrutinee => exact pair (Access.marked_key "expr" (by simp [Access.Opens]))
  | item i => exact pair (Access.marked_index i)
  | result i =>
      have branches := Access.marked_key "branches" (by simp [Access.Opens])
      have result := Access.marked_key "result" (by simp [Access.Opens])
      refine List.forall_mem_append.mpr ⟨pair branches, ?_⟩
      exact List.forall_mem_cons.mpr ⟨Access.marked_index i, List.forall_mem_singleton.mpr result⟩

/-- Every step starts with the payload, and goes through no other payload. -/
theorem marked_accesses (step : Step) : Marked (· = Access.key "v") step.accesses := by
  cases step <;> simp [Marked, accesses]

theorem accesses_injective : Function.Injective accesses := by
  intro s t h
  cases s <;> cases t <;> simp_all [accesses]

end Step

namespace Path

theorem text_cons (step : Step) {rest : Path} (h : rest ≠ []) :
    text (step :: rest) = step.text ++ "." ++ text rest :=
  String.intercalate_cons_of_ne_nil fun none => h (List.map_eq_nil_iff.mp none)

theorem chars_eq {path : Path} (h : path ≠ []) :
    '.' :: (text path).toList = (accesses path).flatMap Access.chars := by
  induction path with
  | nil => exact absurd rfl h
  | cons step rest ih =>
      rw [accesses, List.flatMap_cons, List.flatMap_append, ← Step.chars_eq]
      cases rest with
      | nil =>
          rw [text, List.map_singleton, String.intercalate_singleton]
          exact (List.append_nil _).symm
      | cons next rest =>
          rw [text_cons step (List.cons_ne_nil next rest), ← accesses, ← ih (List.cons_ne_nil next rest)]
          simp

theorem text_eq_empty_iff {path : Path} : text path = "" ↔ path = [] := by
  constructor
  · intro h
    by_contra nonempty
    have written := chars_eq nonempty
    obtain ⟨step, rest, rfl⟩ := List.exists_cons_of_ne_nil nonempty
    obtain ⟨_, more, spelled, rfl, _⟩ := step.marked_accesses
    -- Already the first move is longer than the point before the path.
    rw [h, accesses, List.flatMap_cons, spelled, List.cons_append, List.flatMap_cons] at written
    simp [Access.chars] at written
  · rintro rfl
    rfl

theorem marked_chars (path : Path) : ∀ access ∈ accesses path, Marked Access.Opens access.chars :=
  List.forall_mem_flatMap.mpr fun step _ => step.marked_chars

theorem accesses_injective : Function.Injective accesses := by
  intro p q h
  exact flatMap_inj_of_marked Step.accesses_injective (fun step _ => step.marked_accesses)
    (fun step _ => step.marked_accesses) h

theorem text_injective : Function.Injective text := by
  intro p q h
  by_cases hp : p = []
  · subst hp
    exact (text_eq_empty_iff.mp h.symm).symm
  · have hq : q ≠ [] := fun none => hp (text_eq_empty_iff.mp (h.trans (text_eq_empty_iff.mpr none)))
    have written : (accesses p).flatMap Access.chars = (accesses q).flatMap Access.chars := by
      rw [← chars_eq hp, ← chars_eq hq, h]
    exact accesses_injective
      (flatMap_inj_of_marked Access.chars_injective (marked_chars p) (marked_chars q) written)

end Path

/-- The text of a path leads to one part of a document at most. -/
theorem Json.LeadsTo.unique {text : String} {v w x : Json} (h : LeadsTo text v w) (k : LeadsTo text v x) :
    x = w := by
  obtain ⟨p, rfl, reached⟩ := h
  obtain ⟨q, same, found⟩ := k
  rw [Path.text_injective same] at found
  exact Option.some.inj (found.symm.trans reached)

end ExprRegistry
