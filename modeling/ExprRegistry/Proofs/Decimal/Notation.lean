import ExprRegistry.Decimal.Notation
import ExprRegistry.Proofs.Decimal.Shortest
import ExprRegistry.Proofs.Json.Numeral

/-!
How a double is written, as a document has it. Main statement: the text of a finite double is a number with a
fraction or an exponent.
-/

namespace ExprRegistry.Decimal

open Json

variable {d : Char} {ds : List Char}

theorem dropZeros_cons (digits : ∀ c ∈ d :: ds, Text.isAsciiDigit c = true) :
    ∃ rest, dropZeros (d :: ds) = d :: rest ∧ ∀ c ∈ d :: rest, Text.isAsciiDigit c = true := by
  obtain ⟨first, others⟩ := List.forall_mem_cons.mp digits
  refine ⟨_, rfl, List.forall_mem_cons.mpr ⟨first, fun c member => others c ?_⟩⟩
  exact List.mem_reverse.mp (List.dropWhile_subset _ (List.mem_reverse.mp member))

theorem zero_run : Version.IsRun Text.isAsciiDigit ['0'] :=
  ⟨List.cons_ne_nil _ _, List.forall_mem_singleton.mpr rfl⟩

theorem toString_run (n : Nat) : Version.IsRun Text.isAsciiDigit (toString n).toList := by
  rw [Text.toList_toString]
  exact ⟨Nat.toDigits_ne_nil, Text.isAsciiDigit_of_mem_toDigits⟩

theorem exponentDigits_run (n : Nat) : Version.IsRun Text.isAsciiDigit (exponentDigits n).toList := by
  obtain ⟨given, digits⟩ := toString_run n
  unfold exponentDigits
  split
  · rw [String.toList_append]
    exact ⟨List.cons_ne_nil _ _, List.forall_mem_append.mpr ⟨zero_run.2, digits⟩⟩
  · exact ⟨given, digits⟩

theorem zeros_digits (k : Nat) : ∀ c ∈ List.replicate k '0', Text.isAsciiDigit c = true := by
  intro c member
  rw [List.eq_of_mem_replicate member]
  rfl

theorem isDecimal_positionalOrScientific (leading : d ≠ '0') (digits : ∀ c ∈ d :: ds, Text.isAsciiDigit c = true)
    (lead : Int) : IsDecimal (positionalOrScientific (d :: ds) lead) := by
  unfold positionalOrScientific
  split
  case isTrue =>
    obtain ⟨first, others⟩ := List.forall_mem_cons.mp digits
    have whole : IsWhole [d] := .digits leading (List.forall_mem_singleton.mpr first)
    have sign : (if lead < 0 then '-' else '+') = '+' ∨ (if lead < 0 then '-' else '+') = '-' := by
      split
      · exact .inr rfl
      · exact .inl rfl
    have exponent := IsExponent.some sign (exponentDigits_run lead.natAbs)
    cases ds with
    | nil => exact ⟨[d], [], _, whole, .none, exponent, by simp, rfl⟩
    | cons c ds => exact ⟨[d], '.' :: c :: ds, _, whole, .some ⟨List.cons_ne_nil c ds, others⟩, exponent, by simp, rfl⟩
  case isFalse =>
    split
    case isTrue =>
      have run := List.forall_mem_append.mpr ⟨zeros_digits (-lead - 1).toNat, digits⟩
      exact ⟨['0'], _, [], .zero, .some ⟨by simp, run⟩, .none, by simp, by simp⟩
    case isFalse =>
      dsimp only
      split
      case isTrue =>
        have run := List.forall_mem_append.mpr ⟨digits, zeros_digits (lead.toNat + 1 - (d :: ds).length)⟩
        exact ⟨_, ['.', '0'], [], .digits leading run, .some zero_run, .none, by simp, by simp⟩
      case isFalse long =>
        have behind : (d :: ds).drop (lead.toNat + 1) ≠ [] := by
          intro none
          exact long (List.drop_eq_nil_iff.mp none)
        have front : ∀ c ∈ d :: ds.take lead.toNat, Text.isAsciiDigit c = true := by
          intro c member
          rw [← List.take_succ_cons] at member
          exact digits c (List.mem_of_mem_take member)
        refine ⟨d :: ds.take lead.toNat, _, [], .digits leading front, .some ⟨behind, ?_⟩, .none, by simp, by simp⟩
        intro c member
        exact digits c (List.mem_of_mem_drop member)

/-- A finite double is written as a number with a fraction or an exponent. -/
theorem text_of_finite (spelling : Spelling) {x : Double} (number : x.isNaN = false) (finite : x.isInfinite = false) :
    ∃ cs, IsDecimal cs ∧ (text spelling x).toList = signed x.isNegative cs := by
  have sign (cs : List Char) : (if x.isNegative then "-" else "").toList ++ cs = signed x.isNegative cs := by
    cases x.isNegative with
    | true => rfl
    | false => rfl
  unfold text
  rw [number, finite]
  simp only [Bool.false_eq_true, if_false, beq_iff_eq]
  split
  case isTrue =>
    refine ⟨"0.0".toList, ⟨['0'], ['.', '0'], [], .zero, .some zero_run, .none, by simp, by simp⟩, ?_⟩
    rw [String.toList_append, sign]
  case isFalse positive =>
    obtain ⟨d, ds, same, leading⟩ := Text.toDigits_eq_cons (shortest_digits_ne_zero positive)
    have digits := Text.isAsciiDigit_of_mem_toDigits (n := (shortest x).digits)
    rw [same] at digits
    obtain ⟨rest, dropped, digits⟩ := dropZeros_cons digits
    have written : (toString (shortest x).digits).toList = d :: ds := by
      rw [Text.toList_toString, same]
    rw [written, dropped, String.toList_append, String.toList_ofList, sign]
    exact ⟨_, isDecimal_positionalOrScientific leading digits _, rfl⟩

end ExprRegistry.Decimal
