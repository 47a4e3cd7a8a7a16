import ExprRegistry.Proofs.Version.Strict
import ExprRegistry.Version.Requirement
import Mathlib.Data.List.Infix

/-!
Requirements as text. A text asks for a version by an operator in front of it, with any blanks between the two, or
by the version alone, of which then all three numbers are written. Main statements: `ofText_eq_ok_iff`, for
every text, and `ofText_sign_eq_ok_iff`, for texts with an operator in front.
-/

namespace ExprRegistry.Requirement

open Version (Parts Stops)

/-- The text of a requirement, without the blanks around it, for an operator and the parts of a version. -/
inductive Asks : List Char → Operator → Parts → Prop
  | alone {parts : Parts} (patched : parts.patch.isSome = true) : Asks parts.written .exactly parts
  | after (op : Operator) {gap : List Char} (blank : ∀ c ∈ gap, Text.isBlank c = true) (parts : Parts) :
      Asks (op.sign.toList ++ (gap ++ parts.written)) op parts

/-- What the parts of a version and an operator ask for. -/
def asked (text : String) (op : Operator) (parts : Parts) : Requirement :=
  ⟨text, op, parts.value, if parts.patch.isSome then 3 else 2⟩

variable {parts : Parts} {op : Operator} {cs tail written : List Char} {s text : String} {req : Requirement}

/-! ### Operators -/

theorem exists_sign (op : Operator) : ∃ d ds, op.sign.toList = d :: ds ∧ Text.isDigit d = false := by
  cases op <;> exact ⟨_, _, rfl, by decide⟩

theorem stops_sign (op : Operator) (tail : List Char) : Stops Text.isBlank (op.sign.toList ++ tail) := by
  intro c head
  cases op <;> cases head <;> decide

theorem splitOperator?_of_digit {c : Char} (h : Text.isDigit c = true) (rest : List Char) :
    splitOperator? (c :: rest) = none := by
  rw [splitOperator?, List.findSome?_eq_none_iff]
  intro op _
  obtain ⟨d, ds, sign, plain⟩ := exists_sign op
  have other : ¬ (d == c) = true := by
    rw [beq_iff_eq]
    rintro rfl
    exact Bool.false_ne_true (plain.symm.trans h)
  have apart : (d :: ds).isPrefixOf? (c :: rest) = none := if_neg other
  rw [sign, apart, Option.map_none]

theorem exists_tail_of_splitOperator? {rest : List Char} (h : splitOperator? cs = some (op, rest)) :
    ∃ tail, cs = op.sign.toList ++ tail ∧ rest = Text.trimBy Text.isBlank tail := by
  obtain ⟨op', -, found⟩ := List.exists_of_findSome?_eq_some h
  obtain ⟨tail, front, same⟩ := Option.map_eq_some_iff.mp found
  cases same
  exact ⟨tail, (List.isPrefixOf?_eq_some_iff_append_eq.mp front).symm, rfl⟩

/-- Only an equals sign right after it makes another operator of one. -/
def Ends (op : Operator) (tail : List Char) : Prop := op = .above ∨ op = .below → Stops (· == '=') tail

theorem ends_of_stops (op : Operator) (h : Stops (· == '=') tail) : Ends op tail := fun _ => h

/-- An operator is found where it stands. -/
theorem splitOperator?_sign (h : Ends op tail) :
    splitOperator? (op.sign.toList ++ tail) = some (op, Text.trimBy Text.isBlank tail) := by
  have plain (stops : Stops (· == '=') tail) : ['='].isPrefixOf? tail = none := by
    cases tail with
    | nil => rfl
    | cons c tail =>
        have other : ¬ ('=' == c) = true := by
          rw [beq_iff_eq]
          rintro rfl
          exact Bool.false_ne_true (stops '=' rfl).symm
        exact if_neg other
  cases op with
  | above => simp [splitOperator?, Operator.all, Operator.sign, List.isPrefixOf?, plain (h (.inl rfl))]
  | below => simp [splitOperator?, Operator.all, Operator.sign, List.isPrefixOf?, plain (h (.inr rfl))]
  | compatible | atLeast | atMost | exactly => simp [splitOperator?, Operator.all, Operator.sign, List.isPrefixOf?]

/-! ### Versions that are asked for -/

theorem ofParts_eq_ok_iff {stripped : List Char} :
    ofParts text stripped op written = .ok req ↔ ∃ parts : Parts, parts.Regular ∧ parts.Sound ∧
      written = parts.written ∧ req = asked (String.ofList stripped) op parts := by
  constructor
  · intro h
    unfold ofParts at h
    split at h
    case h_1 => cases h
    case h_2 =>
      split at h
      case h_1 => cases h
      case h_2 parts split =>
        split at h
        case h_1 => cases h
        case h_2 version read =>
          cases h
          obtain ⟨regular, same⟩ := Parts.split?_eq_some_iff.mp split
          obtain ⟨sound, rfl⟩ := Parts.version_eq_ok_iff.mp read
          exact ⟨parts, regular, sound, same, rfl⟩
  · rintro ⟨parts, regular, sound, rfl, rfl⟩
    obtain ⟨c, rest, front, -⟩ := Parts.exists_written_cons regular
    have split := Parts.split?_written regular
    have read := Parts.version_eq_ok_iff.mpr ⟨sound, rfl⟩
    rw [front] at split ⊢
    simp only [ofParts, split, read, asked]

theorem beginsWithVersion_of_split? (h : Parts.split? cs = some parts) :
    beginsWithVersion cs = parts.patch.isSome := by
  simp only [Parts.split?, Option.bind_eq_bind, Option.bind_eq_some_iff, Prod.exists] at h
  obtain ⟨major, _, first, _, _, second, minor, rfl, patch, _, third, prerelease, _, _, build, rest, _, ends⟩ := h
  split at ends
  case isFalse => cases ends
  case isTrue =>
    cases ends
    simp only [beginsWithVersion, Option.bind_eq_bind, first, second, third, Option.bind_some]

/-! ### Texts that are no requirement -/

theorem ofParts_error {text : String} {stripped written : List Char} {operator : Operator} {m : Malformed}
    (h : ofParts text stripped operator written = .error m) : m.text = text := by
  unfold ofParts at h
  split at h
  · cases h; rfl
  · split at h
    · cases h; rfl
    · split at h <;> cases h
      rfl

theorem ofText_error {s : String} {m : Malformed} (h : ofText s = .error m) : m.text = s := by
  rw [ofText] at h
  split at h
  · cases h; rfl
  · split at h
    · exact ofParts_error h
    · split at h
      · exact ofParts_error h
      · cases h; rfl

theorem ofJson_error {requirement : Json} {m : Malformed} (h : ofJson requirement = .error m) :
    m.text = requirement.asText := by
  unfold ofJson at h
  split at h
  case h_1 s => exact ofText_error h
  case h_2 t _ =>
    cases found : ofText t.escaped with
    | error _ =>
        rw [found] at h
        cases h
        rfl
    | ok _ =>
        rw [found] at h
        cases h
  case h_3 noText =>
    cases h
    cases requirement with
    | arr items => rfl
    | obj fields => rfl
    | scalar k =>
        cases k with
        | str t => exact absurd rfl (noText t)
        | _ => rfl

/-! ### Texts of requirements -/

/-- What follows an operator loses its blanks at the end with the text, and those in front with the operator. -/
theorem trimBy_sign (op : Operator) (tail : List Char) :
    ∃ short, Text.trimBy Text.isBlank (op.sign.toList ++ tail) = op.sign.toList ++ short ∧
      Text.trimBy Text.isBlank short = Text.trimBy Text.isBlank tail ∧ (Ends op tail → Ends op short) := by
  obtain ⟨before, after, whole, first, last, begins, ends⟩ := Text.exists_trimBy Text.isBlank tail
  by_cases empty : Text.trimBy Text.isBlank tail = []
  · have blank : ∀ c ∈ tail, Text.isBlank c = true := by
      rw [whole, empty, List.nil_append]
      exact List.forall_mem_append.mpr ⟨first, last⟩
    have begins' : Stops Text.isBlank op.sign.toList := Text.stops_left [] (stops_sign op [])
    have ends' : Stops Text.isBlank op.sign.toList.reverse := by
      intro c head
      cases op <;> cases head <;> decide
    refine ⟨[], ?_, empty.symm, fun _ _ => Version.stops_nil⟩
    rw [List.append_nil]
    exact Text.trimBy_append (List.forall_mem_nil _) blank begins' ends'
  · have front : op.sign.toList ++ tail =
        [] ++ ((op.sign.toList ++ (before ++ Text.trimBy Text.isBlank tail)) ++ after) := by
      simp only [List.append_assoc, List.nil_append, ← whole]
    refine ⟨before ++ Text.trimBy Text.isBlank tail, ?_, Text.trimBy_append_left first begins ends, ?_⟩
    · rw [front]
      apply Text.trimBy_append (List.forall_mem_nil _) last (stops_sign op _)
      rw [← List.append_assoc]
      exact Text.stops_reverse_append empty ends _
    · intro h narrow
      apply Text.stops_left after
      rw [List.append_assoc, ← whole]
      exact h narrow

theorem stops_of_trimBy (regular : parts.Regular) (h : Text.trimBy Text.isBlank tail = parts.written) :
    Stops (· == '=') tail := by
  obtain ⟨before, after, whole, blank, -⟩ := Text.exists_trimBy Text.isBlank tail
  obtain ⟨c, rest, front, digit⟩ := Parts.exists_written_cons regular
  rw [h, front] at whole
  intro d head
  rw [beq_eq_false_iff_ne]
  rintro rfl
  rw [whole] at head
  cases before with
  | nil =>
      cases head
      exact Bool.false_ne_true digit
  | cons b before =>
      cases head
      exact Bool.false_ne_true (blank '=' List.mem_cons_self)

/-- With an operator in front, a text is a requirement when what follows writes a version. -/
theorem ofText_sign_eq_ok_iff (same : s.toList = op.sign.toList ++ tail) (h : Ends op tail) :
    ofText s = .ok req ↔ ∃ parts : Parts, parts.Regular ∧ parts.Sound ∧
      Text.trimBy Text.isBlank tail = parts.written ∧ req = asked (Text.strip s) op parts := by
  obtain ⟨short, trimmed, again, narrow⟩ := trimBy_sign op tail
  have found := splitOperator?_sign (narrow h)
  obtain ⟨d, ds, sign, -⟩ := exists_sign op
  rw [Text.strip, ofText, same, trimmed]
  rw [sign, List.cons_append] at found ⊢
  simp only [found, again]
  exact ofParts_eq_ok_iff

/-- An operator of a text that asks for a version is found with the version behind it, and none where there is none. -/
theorem splitOperator?_of_asks (asks : Asks cs op parts) (regular : parts.Regular) :
    splitOperator? cs = some (op, parts.written) ∨
      splitOperator? cs = none ∧ op = .exactly ∧ cs = parts.written ∧ parts.patch.isSome = true := by
  cases asks with
  | alone patched =>
      obtain ⟨c, rest, front, digit⟩ := Parts.exists_written_cons regular
      refine .inr ⟨?_, rfl, rfl, patched⟩
      rw [front]
      exact splitOperator?_of_digit digit rest
  | @after _ gap blank =>
      have trimmed : Text.trimBy Text.isBlank (gap ++ parts.written) = parts.written :=
        Text.trimBy_append_left blank (Version.stops_written regular).1 (Version.stops_written regular).2
      have found := splitOperator?_sign (ends_of_stops op (stops_of_trimBy regular trimmed))
      rw [trimmed] at found
      exact .inl found

/-- A text asks for a version in one way at most. -/
theorem Asks.unique {op' : Operator} {other : Parts} (asks : Asks cs op parts) (asks' : Asks cs op' other)
    (regular : parts.Regular) (regular' : other.Regular) : op = op' ∧ parts = other := by
  rcases splitOperator?_of_asks asks regular with found | ⟨none, rfl, written, -⟩
  · rcases splitOperator?_of_asks asks' regular' with found' | ⟨none', -⟩
    · obtain ⟨same, written⟩ := Prod.mk.inj (Option.some.inj (found.symm.trans found'))
      exact ⟨same, Parts.written_injective regular regular' written⟩
    · cases found.symm.trans none'
  · rcases splitOperator?_of_asks asks' regular' with found' | ⟨-, rfl, written', -⟩
    · cases none.symm.trans found'
    · exact ⟨rfl, Parts.written_injective regular regular' (written.symm.trans written')⟩

/-- There are no blanks around a text that asks for a version. -/
theorem trimBy_asks (asks : Asks cs op parts) (regular : parts.Regular) : Text.trimBy Text.isBlank cs = cs := by
  obtain ⟨begins, ends⟩ := Version.stops_written regular
  obtain ⟨c, rest, front, -⟩ := Parts.exists_written_cons regular
  cases asks with
  | alone => exact Text.trimBy_append_left (List.forall_mem_nil _) begins ends
  | @after _ gap =>
      apply Text.trimBy_append_left (List.forall_mem_nil _) (stops_sign op _)
      rw [← List.append_assoc]
      exact Text.stops_reverse_append (by simp [front]) ends _

theorem Asks.exists_cons (asks : Asks cs op parts) (regular : parts.Regular) : ∃ c rest, cs = c :: rest := by
  cases asks with
  | alone =>
      obtain ⟨c, rest, front, -⟩ := Parts.exists_written_cons regular
      exact ⟨c, rest, front⟩
  | after =>
      obtain ⟨d, ds, sign, -⟩ := exists_sign op
      exact ⟨d, _, by rw [sign, List.cons_append]⟩

theorem ofText_eq_ok_iff :
    ofText s = .ok req ↔ ∃ op parts, Asks (Text.trimBy Text.isBlank s.toList) op parts ∧ parts.Regular ∧
      parts.Sound ∧ req = asked (Text.strip s) op parts := by
  obtain ⟨_, _, -, -, -, -, ends⟩ := Text.exists_trimBy Text.isBlank s.toList
  rw [ofText, Text.strip]
  generalize Text.trimBy Text.isBlank s.toList = stripped at ends ⊢
  constructor
  · intro h
    split at h
    case h_1 => cases h
    case h_2 =>
      split at h
      case h_1 op rest found =>
        obtain ⟨parts, regular, sound, same, rfl⟩ := ofParts_eq_ok_iff.mp h
        obtain ⟨tail, rfl, trimmed⟩ := exists_tail_of_splitOperator? found
        rw [List.reverse_append] at ends
        obtain ⟨gap, blank, whole⟩ := Text.exists_gap (Text.stops_left _ ends)
        rw [← trimmed, same] at whole
        rw [whole]
        exact ⟨op, parts, .after op blank parts, regular, sound, rfl⟩
      case h_2 none =>
        split at h
        case isFalse => cases h
        case isTrue begins =>
          obtain ⟨parts, regular, sound, rfl, rfl⟩ := ofParts_eq_ok_iff.mp h
          rw [beginsWithVersion_of_split? (Parts.split?_written regular)] at begins
          exact ⟨.exactly, parts, .alone begins, regular, sound, rfl⟩
  · rintro ⟨op, parts, asks, regular, sound, rfl⟩
    have read : ofParts s stripped op parts.written = .ok _ :=
      ofParts_eq_ok_iff.mpr ⟨parts, regular, sound, rfl, rfl⟩
    obtain ⟨d, ds, front⟩ := asks.exists_cons regular
    rcases splitOperator?_of_asks asks regular with found | ⟨none, rfl, written, patched⟩
    · rw [front] at found read ⊢
      simp only [found, read]
    · have begins := (beginsWithVersion_of_split? (Parts.split?_written regular)).trans patched
      rw [← written, front] at begins read
      rw [front] at none ⊢
      simp only [none, begins, if_true, read]

/-- The text of parts with a patch is a requirement, which asks for exactly the version of the parts. -/
theorem ofText_of_written (regular : parts.Regular) (patched : parts.patch.isSome = true) (sound : parts.Sound)
    (written : s.toList = parts.written) : ofText s = .ok ⟨s, .exactly, parts.value, 3⟩ := by
  have stripped := Text.trimBy_eq_self (Version.isBlank_of_mem_written regular)
  rw [ofText_eq_ok_iff, Text.strip, written, stripped, ← written, String.ofList_toList, written]
  exact ⟨.exactly, parts, .alone patched, regular, sound, by rw [asked, patched]; rfl⟩

end ExprRegistry.Requirement
