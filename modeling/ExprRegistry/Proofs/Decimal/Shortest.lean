import ExprRegistry.Decimal.Shortest
import Mathlib.Algebra.Group.Nat.Defs
import Mathlib.Order.Basic

/-!
The digits of a double are never zero alone. A grid that reaches the value has a neighbour of the value that is no
zero, and of the seventeen grids that are tried the last one reaches it, even where the place of the leading
digit was estimated too high. Main statement: `shortest_digits_ne_zero`.
-/

namespace ExprRegistry.Decimal

/-- A number of a grid is not above the value. -/
def Neighbourhood.Reaches (n : Neighbourhood) (e : Int) : Prop :=
  10 ^ e.toNat * 2 ^ 1076 ≤ n.middle * 2 ^ n.unit * 10 ^ (-e).toNat

namespace Neighbourhood

variable {n : Neighbourhood} {e : Int}

theorem reaches_iff : n.Reaches e ↔ n.compareDecimal 1 e n.middle ≠ .gt := by
  simp only [Reaches, compareDecimal, ne_eq, Nat.compare_eq_gt, Nat.not_lt, Nat.one_mul, Nat.pow_eq]

theorem Reaches.finer (h : n.Reaches e) : n.Reaches (e - 1) := by
  unfold Reaches at h ⊢
  by_cases positive : 0 < e
  · have same : (-(e - 1)).toNat = (-e).toNat := by omega
    have less : (e - 1).toNat ≤ e.toNat := by omega
    rw [same]
    exact Nat.le_trans (Nat.mul_le_mul_right _ (Nat.pow_le_pow_right (by decide) less)) h
  · have same : (e - 1).toNat = e.toNat := by omega
    have more : (-e).toNat ≤ (-(e - 1)).toNat := by omega
    rw [same]
    exact Nat.le_trans h (Nat.mul_le_mul_left _ (Nat.pow_le_pow_right (by decide) more))

theorem Reaches.sub (h : n.Reaches e) (k : Nat) : n.Reaches (e - k) := by
  induction k with
  | zero => simpa using h
  | succ k ih =>
      have finer := ih.finer
      rwa [Int.sub_sub, ← Int.natCast_succ] at finer

theorem floorAt_ne_zero (h : n.Reaches e) : n.floorAt e ≠ 0 := by
  have positive : 0 < Nat.pow 10 e.toNat * Nat.pow 2 1076 :=
    Nat.mul_pos (Nat.pow_pos (by decide)) (Nat.pow_pos (by decide))
  exact Nat.ne_of_gt (Nat.div_pos h positive)

/-! ### The estimate of the leading digit -/

theorem ten_pow_le (k : Nat) : 10 ^ k ≤ 2 ^ (10 * ((k + 2) / 3)) := by
  calc
    10 ^ k ≤ 10 ^ (3 * ((k + 2) / 3)) := Nat.pow_le_pow_right (by decide) (by omega)
    _ = (10 ^ 3) ^ ((k + 2) / 3) := Nat.pow_mul 10 3 _
    _ ≤ (2 ^ 10) ^ ((k + 2) / 3) := Nat.pow_le_pow_left (by decide) _
    _ = 2 ^ (10 * ((k + 2) / 3)) := (Nat.pow_mul 2 10 _).symm

theorem two_pow_le (k : Nat) : 2 ^ (16 * (k / 5)) ≤ 10 ^ k := by
  calc
    2 ^ (16 * (k / 5)) = (2 ^ 16) ^ (k / 5) := Nat.pow_mul 2 16 _
    _ ≤ (10 ^ 5) ^ (k / 5) := Nat.pow_le_pow_left (by decide) _
    _ = 10 ^ (5 * (k / 5)) := (Nat.pow_mul 10 5 _).symm
    _ ≤ 10 ^ k := Nat.pow_le_pow_right (by decide) (by omega)

/-- The logarithm that the estimate multiplies by is a little too large, which seventeen places make up for in
the range of doubles. -/
theorem reaches_of_estimate (positive : n.middle ≠ 0) (small : n.middle.log2 + n.unit ≤ 4000)
    (estimate : e * 100000 ≤ ((n.middle.log2 : Int) + n.unit - 1076) * 30103) : n.Reaches (e - 17) := by
  have lower : 2 ^ (n.middle.log2 + n.unit) ≤ n.middle * 2 ^ n.unit := by
    rw [Nat.pow_add]
    exact Nat.mul_le_mul_right _ (Nat.log2_self_le positive)
  refine Nat.le_trans ?_ (Nat.mul_le_mul_right _ lower)
  by_cases below : e < 17
  · have none : (e - 17).toNat = 0 := by omega
    have exponents : 1076 ≤ n.middle.log2 + n.unit + 16 * ((-(e - 17)).toNat / 5) := by omega
    rw [none, Nat.pow_zero, Nat.one_mul]
    calc
      2 ^ 1076 ≤ 2 ^ (n.middle.log2 + n.unit + 16 * ((-(e - 17)).toNat / 5)) :=
        Nat.pow_le_pow_right (by decide) exponents
      _ = 2 ^ (n.middle.log2 + n.unit) * 2 ^ (16 * ((-(e - 17)).toNat / 5)) := Nat.pow_add 2 _ _
      _ ≤ 2 ^ (n.middle.log2 + n.unit) * 10 ^ (-(e - 17)).toNat := Nat.mul_le_mul_left _ (two_pow_le _)
  · have none : (-(e - 17)).toNat = 0 := by omega
    have exponents : 10 * (((e - 17).toNat + 2) / 3) + 1076 ≤ n.middle.log2 + n.unit := by omega
    rw [none, Nat.pow_zero, Nat.mul_one]
    calc
      10 ^ (e - 17).toNat * 2 ^ 1076 ≤ 2 ^ (10 * (((e - 17).toNat + 2) / 3)) * 2 ^ 1076 :=
        Nat.mul_le_mul_right _ (ten_pow_le _)
      _ = 2 ^ (10 * (((e - 17).toNat + 2) / 3) + 1076) := (Nat.pow_add 2 _ _).symm
      _ ≤ 2 ^ (n.middle.log2 + n.unit) := Nat.pow_le_pow_right (by decide) exponents

theorem reaches_leading (positive : n.middle ≠ 0) (small : n.middle.log2 + n.unit ≤ 4000) :
    n.Reaches (n.leading - 16) := by
  unfold leading
  dsimp only
  split
  case isTrue reached =>
    exact (reaches_iff.mpr (by simpa using reached)).sub 16
  case isFalse =>
    split
    case isTrue =>
      rw [Int.sub_sub]
      refine reaches_of_estimate positive small ?_
      omega
    case isFalse reached =>
      exact (reaches_iff.mpr (by simpa using reached)).sub 16

/-! ### Grids -/

theorem not_holds_zero (low : n.low ≠ 0) : n.holds 0 e = false := by
  have below : n.compareDecimal 0 e n.low = .lt := by
    rw [compareDecimal, Nat.compare_eq_lt, Nat.zero_mul, Nat.zero_mul]
    refine Nat.mul_pos (Nat.mul_pos (Nat.pos_of_ne_zero low) ?_) ?_
    · exact Nat.pow_pos (by decide)
    · exact Nat.pow_pos (by decide)
  rw [holds, below]
  split
  · rfl
  · rfl

/-- A grid gives the neighbour below, if it rounds to the value, or the one above. -/
theorem onGrid_cases {s : Scientific} (h : n.onGrid e = some s) :
    (s.digits = n.floorAt e ∧ n.holds (n.floorAt e) e = true) ∨ s.digits = n.floorAt e + 1 := by
  unfold onGrid at h
  -- The functions stand for themselves here: nothing has to work out the large numbers that they compare.
  generalize n.floorAt e = a at h ⊢
  generalize n.holds = holds at h ⊢
  dsimp only at h
  generalize n.compareDecimal (2 * a + 1) e (2 * n.middle) = order at h
  generalize holds (a + 1) e = above at h
  generalize holds a e = below at h ⊢
  cases below with
  | false =>
      cases above with
      | false => cases h
      | true => exact .inr (congrArg Scientific.digits (Option.some.inj h)).symm
  | true =>
      cases above with
      | false => exact .inl ⟨(congrArg Scientific.digits (Option.some.inj h)).symm, rfl⟩
      | true =>
          cases order with
          | gt => exact .inl ⟨(congrArg Scientific.digits (Option.some.inj h)).symm, rfl⟩
          | lt => exact .inr (congrArg Scientific.digits (Option.some.inj h)).symm
          | eq =>
              obtain rfl := Option.some.inj h
              by_cases even : (a % 2 == 0) = true
              · rw [if_pos even]
                exact .inl ⟨rfl, rfl⟩
              · rw [if_neg even]
                exact .inr rfl

theorem onGrid_ne_zero (low : n.low ≠ 0) {s : Scientific} (h : n.onGrid e = some s) : s.digits ≠ 0 := by
  rcases onGrid_cases h with ⟨floor, held⟩ | next
  · intro zero
    rw [← floor, zero, not_holds_zero low] at held
    cases held
  · rw [next]
    exact Nat.succ_ne_zero _

end Neighbourhood

/-! ### Doubles -/

theorem significand_lt (x : Double) : x.significand < 2 ^ 53 := by
  have fraction : x.fraction < 2 ^ 52 := Nat.mod_lt _ (Nat.pow_pos (by decide))
  unfold Double.significand
  split
  · omega
  · rw [Nat.pow_eq]
    omega

theorem scale_lt (x : Double) : x.scale < 2 ^ 11 := by
  have field : x.exponentField < 2 ^ 11 := Nat.mod_lt _ (Nat.pow_pos (by decide))
  unfold Double.scale
  omega

theorem shortest_digits_ne_zero {x : Double} (h : x.significand ≠ 0) : (shortest x).digits ≠ 0 := by
  have low : (neighbourhood x).low ≠ 0 := by
    unfold neighbourhood
    dsimp only
    split
    · omega
    · omega
  have middle : (neighbourhood x).middle ≠ 0 := Nat.mul_ne_zero (by decide) h
  have small : (neighbourhood x).middle.log2 + (neighbourhood x).unit ≤ 4000 := by
    have size : (neighbourhood x).middle < 2 ^ 55 := by
      have bound := significand_lt x
      change 4 * x.significand < 2 ^ 55
      omega
    have digits : (neighbourhood x).middle.log2 < 55 := (Nat.log2_lt middle).mpr size
    have unit : (neighbourhood x).unit < 2 ^ 11 := scale_lt x
    omega
  unfold shortest
  dsimp only
  split
  case h_1 s found =>
    obtain ⟨k, _, grid⟩ := List.exists_of_findSome?_eq_some found
    exact Neighbourhood.onGrid_ne_zero low grid
  case h_2 => exact Neighbourhood.floorAt_ne_zero (Neighbourhood.reaches_leading middle small)

end ExprRegistry.Decimal
