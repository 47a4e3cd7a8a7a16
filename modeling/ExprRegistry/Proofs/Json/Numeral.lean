import ExprRegistry.Json.Reader
import ExprRegistry.Proofs.Text.Digits
import ExprRegistry.Proofs.Version.Grammar
import Mathlib.Data.List.Basic

/-!
Numbers in documents. A number is written as digits that have no zero in front of others, with a sign, a fraction
and an exponent where it has them, and what follows it does not go on with it. Main statements: digits alone are
read as the integer that they write, and with a fraction or an exponent as a double.
-/

namespace ExprRegistry

theorem Version.Stops.mono {p q : Char → Bool} {rest : List Char} (h : Stops q rest)
    (le : ∀ c, p c = true → q c = true) : Stops p rest := by
  intro c first
  cases here : p c with
  | false => rfl
  | true => exact absurd (le c here) (ne_true_of_eq_false (h c first))

namespace Json

/-- The digits of a number before its fraction: a zero stands there alone only. -/
inductive IsWhole : List Char → Prop
  | zero : IsWhole ['0']
  | digits {d : Char} {ds : List Char} (leading : d ≠ '0') (all : ∀ c ∈ d :: ds, Text.isAsciiDigit c = true) :
      IsWhole (d :: ds)

inductive IsFraction : List Char → Prop
  | none : IsFraction []
  | some {ds : List Char} (run : Version.IsRun Text.isAsciiDigit ds) : IsFraction ('.' :: ds)

inductive IsExponent : List Char → Prop
  | none : IsExponent []
  | some {sign : Char} {ds : List Char} (signed : sign = '+' ∨ sign = '-')
      (run : Version.IsRun Text.isAsciiDigit ds) : IsExponent ('e' :: sign :: ds)

/-- A number that is no integer, without its sign. -/
def IsDecimal (cs : List Char) : Prop :=
  ∃ ws fs es, IsWhole ws ∧ IsFraction fs ∧ IsExponent es ∧ ¬(fs = [] ∧ es = []) ∧ cs = ws ++ (fs ++ es)

/-- Whether a number goes on with a character. -/
def goesOn (c : Char) : Bool := Text.isAsciiDigit c || c == '.' || c == 'e' || c == 'E'

/-- A numeral with its sign. -/
def signed (negative : Bool) (cs : List Char) : List Char := if negative then '-' :: cs else cs

variable {ws fs es ds rest : List Char}

theorem isWhole_toDigits (n : Nat) : IsWhole (Nat.toDigits 10 n) := by
  by_cases zero : n = 0
  · rw [zero]
    exact .zero
  · obtain ⟨d, ds, same, leading⟩ := Text.toDigits_eq_cons zero
    have digits := Text.isAsciiDigit_of_mem_toDigits (n := n)
    rw [same] at digits ⊢
    exact .digits leading digits

/-! ### Fractions and exponents -/

theorem run_append (run : Version.IsRun Text.isAsciiDigit ds) (stop : Version.Stops Text.isAsciiDigit rest) :
    (ds ++ rest).takeWhile Text.isAsciiDigit = ds ∧ (ds ++ rest).dropWhile Text.isAsciiDigit = rest := by
  rw [List.takeWhile_append_of_pos run.2, List.dropWhile_append_of_pos run.2, Version.takeWhile_of_stops stop,
    Version.dropWhile_of_stops stop, List.append_nil]
  exact ⟨rfl, rfl⟩

theorem fractionPart_of_stops (stop : Version.Stops (· == '.') rest) : fractionPart rest = ([], rest) := by
  cases rest with
  | nil => rfl
  | cons c rest =>
      have other : c ≠ '.' := by simpa using stop c rfl
      unfold fractionPart
      split
      case h_1 same =>
        cases same
        exact absurd rfl other
      case h_2 => rfl

theorem fractionPart_run (run : Version.IsRun Text.isAsciiDigit ds)
    (stop : Version.Stops Text.isAsciiDigit rest) : fractionPart ('.' :: (ds ++ rest)) = (ds, rest) := by
  obtain ⟨taken, dropped⟩ := run_append run stop
  cases ds with
  | nil => exact absurd rfl run.1
  | cons d ds =>
      rw [List.cons_append] at taken dropped ⊢
      rw [fractionPart, if_pos (run.2 d List.mem_cons_self), taken, dropped]

theorem exponentPart_of_stops (stop : Version.Stops (fun c => c == 'e' || c == 'E') rest) :
    exponentPart rest = (none, rest) := by
  cases rest with
  | nil => rfl
  | cons c rest =>
      unfold exponentPart
      exact if_neg (ne_true_of_eq_false (stop c rfl))

theorem exponentPart_run {sign : Char} (minus : sign = '+' ∨ sign = '-')
    (run : Version.IsRun Text.isAsciiDigit ds) (stop : Version.Stops Text.isAsciiDigit rest) :
    ∃ n, exponentPart ('e' :: sign :: (ds ++ rest)) = (some n, rest) := by
  obtain ⟨taken, dropped⟩ := run_append run stop
  have given : ds.isEmpty = false := List.isEmpty_eq_false_iff.mpr run.1
  rcases minus with rfl | rfl
  all_goals
    simp only [exponentPart, taken, dropped, given]
    exact ⟨_, rfl⟩

/-! ### Numbers -/

theorem stops_fraction (fraction : IsFraction fs) (exponent : IsExponent es) (stop : Version.Stops goesOn rest) :
    Version.Stops Text.isAsciiDigit (fs ++ (es ++ rest)) := by
  cases fraction with
  | some run => exact Version.stops_cons (by decide)
  | none =>
      cases exponent with
      | some signed run => exact Version.stops_cons (by decide)
      | none => exact stop.mono fun c digit => by simp [goesOn, digit]

/-- The parts of a numeral behind the digits in front are read one after the other. -/
theorem parts_append (fraction : IsFraction fs) (exponent : IsExponent es) (stop : Version.Stops goesOn rest) :
    fractionPart (fs ++ (es ++ rest)) = (fs.drop 1, es ++ rest) ∧
      ∃ n, exponentPart (es ++ rest) = (n, rest) ∧ (n.isNone = true ↔ es = []) := by
  have digits : Version.Stops Text.isAsciiDigit rest := stop.mono fun c digit => by simp [goesOn, digit]
  constructor
  · cases fraction with
    | some run =>
        refine fractionPart_run run ?_
        exact stops_fraction .none exponent stop
    | none =>
        refine fractionPart_of_stops ?_
        cases exponent with
        | some signed run => exact Version.stops_cons (by decide)
        | none => exact stop.mono fun c point => by simp [goesOn, beq_iff_eq.mp point]
  · cases exponent with
    | some signed run =>
        obtain ⟨n, read⟩ := exponentPart_run signed run digits
        exact ⟨some n, read, by simp⟩
    | none =>
        refine ⟨none, exponentPart_of_stops ?_, by simp⟩
        refine stop.mono fun c mark => ?_
        rcases Bool.or_eq_true_iff.mp mark with e | e
        · simp [goesOn, beq_iff_eq.mp e]
        · simp [goesOn, beq_iff_eq.mp e]

theorem minusPart_signed (negative : Bool) (whole : IsWhole ws) (rest : List Char) :
    minusPart (signed negative (ws ++ rest)) = (negative, ws ++ rest) := by
  cases negative with
  | true => rfl
  | false =>
      cases whole with
      | zero => rfl
      | @digits d ds leading all =>
          have digit := all d List.mem_cons_self
          rw [signed, if_neg Bool.false_ne_true, List.cons_append]
          unfold minusPart
          split
          case h_1 same =>
            cases same
            cases digit
          case h_2 => rfl

theorem wholePart?_append (whole : IsWhole ws) (stop : Version.Stops Text.isAsciiDigit rest) :
    wholePart? (ws ++ rest) = some (ws, rest) := by
  cases whole with
  | zero => rfl
  | @digits d ds leading all =>
      obtain ⟨taken, dropped⟩ := run_append ⟨List.cons_ne_nil d ds, all⟩ stop
      rw [List.cons_append] at taken dropped ⊢
      unfold wholePart?
      split
      case h_1 same =>
        cases same
        exact absurd rfl leading
      case h_2 same =>
        cases same
        rw [if_pos (all d List.mem_cons_self), taken, dropped]
      case h_3 none => cases none

/-- A numeral is read up to its end: as an integer where it has neither fraction nor exponent, as a double
otherwise. -/
theorem readNumber?_append (negative : Bool) (whole : IsWhole ws) (fraction : IsFraction fs)
    (exponent : IsExponent es) (stop : Version.Stops goesOn rest) :
    ∃ v, readNumber? (signed negative (ws ++ (fs ++ (es ++ rest)))) = some (v, rest) ∧
      (if fs = [] ∧ es = [] then v = .int (if negative then -(Text.numberOf ws : Int) else Text.numberOf ws)
        else ∃ x, v = .float x) := by
  obtain ⟨readFraction, n, readExponent, absent⟩ := parts_append fraction exponent stop
  have nothing : (fs.drop 1).isEmpty = true ↔ fs = [] := by
    cases fraction with
    | none => simp
    | some run => simpa using run.1
  have readWhole := wholePart?_append whole (stops_fraction fraction exponent stop)
  simp only [readNumber?, minusPart_signed negative whole, readWhole, Option.map_some, numberFrom, readFraction,
    readExponent, Bool.and_eq_true, nothing, absent]
  split
  · exact ⟨_, rfl, rfl⟩
  · exact ⟨_, rfl, _, rfl⟩

end Json

end ExprRegistry
