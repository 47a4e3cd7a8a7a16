import ExprRegistry.Text.DecimalDigit
import Mathlib.Data.List.Basic
import Mathlib.Data.List.Induction

/-!
Numbers and their digits. A number is what its digits write, and digits without a zero in front of them are the
only ones that write their number. Main statements: `numberOf_toDigits` and `numberOf_injective`.
-/

namespace ExprRegistry.Text

theorem isAsciiDigit_of_isDigit {c : Char} (h : c.isDigit = true) : isAsciiDigit c = true := h

theorem digitValue?_of_isAsciiDigit {c : Char} (h : isAsciiDigit c = true) :
    digitValue? c = some (c.toNat - 0x30) := by
  simp only [isAsciiDigit, Bool.and_eq_true, decide_eq_true_eq, Char.le_def, UInt32.le_iff_toNat_le] at h
  have low : 0x30 ≤ c.toNat := h.1
  have high : c.toNat < 0x30 + 10 := Nat.lt_succ_of_le h.2
  simp [digitValue?, digitZeros, low, high]

theorem isAsciiDigit_of_mem_toDigits {n : Nat} : ∀ c ∈ Nat.toDigits 10 n, isAsciiDigit c = true :=
  fun _ member => isAsciiDigit_of_isDigit (Nat.isDigit_of_mem_toDigits (by decide) (by decide) member)

theorem isDigit_of_isAsciiDigit {c : Char} (h : isAsciiDigit c = true) : isDigit c = true := by
  rw [isDigit, digitValue?_of_isAsciiDigit h]
  rfl

theorem toList_toString (n : Nat) : (toString n).toList = Nat.toDigits 10 n := by
  rw [Nat.toString_eq_ofList_toDigits, String.toList_ofList]

/-- A number is what its digits write. -/
theorem numberOf_toDigits (n : Nat) : numberOf (Nat.toDigits 10 n) = n := by
  calc
    numberOf (Nat.toDigits 10 n) = Nat.ofDigitChars 10 (Nat.toDigits 10 n) 0 := by
      rw [Nat.ofDigitChars_eq_foldl, numberOf]
      refine List.foldl_ext _ _ 0 fun m c member => ?_
      rw [digitValue?_of_isAsciiDigit (isAsciiDigit_of_mem_toDigits c member)]
      rfl
    _ = n := Nat.ofDigitChars_ten_toDigits

theorem toDigits_eq_cons {n : Nat} (positive : n ≠ 0) : ∃ d ds, Nat.toDigits 10 n = d :: ds ∧ d ≠ '0' := by
  induction n using Nat.strongRecOn with
  | ind n ih =>
      by_cases small : n < 10
      · have leading : ∀ m < 10, m ≠ 0 → m.digitChar ≠ '0' := by decide
        exact ⟨n.digitChar, [], Nat.toDigits_of_lt_base small, leading n small positive⟩
      · obtain ⟨d, ds, same, leading⟩ := ih (n / 10) (by omega) (by omega)
        refine ⟨d, ds ++ [(n % 10).digitChar], ?_, leading⟩
        rw [Nat.toDigits_of_base_le (by decide) (by omega), same, List.cons_append]

theorem toDigits_of_isAsciiDigit {d : Char} (h : isAsciiDigit d = true) :
    d.toNat - 0x30 < 10 ∧ Nat.toDigits 10 (d.toNat - 0x30) = [d] := by
  simp only [isAsciiDigit, Bool.and_eq_true, decide_eq_true_eq, Char.le_def, UInt32.le_iff_toNat_le] at h
  have low : 0x30 ≤ d.toNat := h.1
  have high : d.toNat < 0x30 + 10 := Nat.lt_succ_of_le h.2
  have small : d.toNat - 0x30 < 10 := by omega
  refine ⟨small, ?_⟩
  rw [Nat.toDigits_of_lt_base small, List.singleton_inj, ← Char.toNat_inj, Nat.toNat_digitChar_of_lt_ten small]
  omega

/-- Digits that do not begin with a zero, or are a zero alone, are the digits of the number that they write. The
induction is on the last digit, as a number is written. -/
theorem toDigits_numberOf {c : Char} {cs : List Char} (digits : ∀ d ∈ c :: cs, isAsciiDigit d = true)
    (plain : c = '0' → cs = []) : Nat.toDigits 10 (numberOf (c :: cs)) = c :: cs := by
  induction cs using List.reverseRecOn with
  | nil =>
      have digit := digits c List.mem_cons_self
      have value : numberOf [c] = c.toNat - 0x30 := by
        rw [numberOf, List.foldl_cons, List.foldl_nil, digitValue?_of_isAsciiDigit digit]
        simp
      rw [value]
      exact (toDigits_of_isAsciiDigit digit).2
  | append_singleton cs d ih =>
      have leading : c ≠ '0' := by
        intro zero
        simpa using plain zero
      have before : ∀ e ∈ c :: cs, isAsciiDigit e = true := by
        intro e member
        apply digits e
        rw [← List.cons_append]
        exact List.mem_append_left [d] member
      have digit : isAsciiDigit d = true := digits d (by simp)
      have same := ih before fun zero => absurd zero leading
      have positive : 0 < numberOf (c :: cs) := by
        apply Nat.pos_of_ne_zero
        intro zero
        rw [zero] at same
        cases same
        exact leading rfl
      have value : numberOf (c :: (cs ++ [d])) = 10 * numberOf (c :: cs) + (d.toNat - 0x30) := by
        rw [← List.cons_append, numberOf, List.foldl_append, List.foldl_cons, List.foldl_nil,
          digitValue?_of_isAsciiDigit digit]
        rfl
      obtain ⟨small, last⟩ := toDigits_of_isAsciiDigit digit
      rw [value, ← Nat.toDigits_append_toDigits (by decide) positive small, same, last, List.cons_append]

theorem numberOf_injective {c d : Char} {cs ds : List Char} (digits : ∀ e ∈ c :: cs, isAsciiDigit e = true)
    (plain : c = '0' → cs = []) (digits' : ∀ e ∈ d :: ds, isAsciiDigit e = true) (plain' : d = '0' → ds = [])
    (same : numberOf (c :: cs) = numberOf (d :: ds)) : c :: cs = d :: ds := by
  rw [← toDigits_numberOf digits plain, same, toDigits_numberOf digits' plain']

end ExprRegistry.Text
