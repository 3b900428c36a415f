import Mathlib

/-!
# Rounding of integer quotients

`roundHalfEven` rounds a quotient to the nearest integer and a tie to the even
neighbour, symmetrically in the sign of the numerator. Its error is at most
half a unit, which is all that the arithmetic built on it needs.
-/

namespace Rounding

/-- Round a non-negative quotient to the nearest integer, ties to even. -/
def roundNonneg (numerator denominator : ℤ) : ℤ :=
  let quotient := numerator / denominator
  let twice := 2 * (numerator % denominator)
  if twice < denominator then quotient
  else if denominator < twice then quotient + 1
  else if quotient % 2 = 0 then quotient
  else quotient + 1

/-- Round a quotient to the nearest integer, ties to even. -/
def roundHalfEven (numerator denominator : ℤ) : ℤ :=
  if numerator < 0 then -roundNonneg (-numerator) denominator
  else roundNonneg numerator denominator

theorem roundNonneg_cases (numerator denominator : ℤ) :
    (roundNonneg numerator denominator = numerator / denominator ∧
        2 * (numerator % denominator) ≤ denominator) ∨
      (roundNonneg numerator denominator = numerator / denominator + 1 ∧
        denominator ≤ 2 * (numerator % denominator)) := by
  unfold roundNonneg
  simp only
  split
  · left; omega
  · split
    · right; omega
    · split
      · left; omega
      · right; omega

/-- The error of rounding is at most half a unit in either direction. -/
theorem roundNonneg_error (numerator : ℤ) {denominator : ℤ} (positive : 0 < denominator) :
    2 * (roundNonneg numerator denominator * denominator) ≤ 2 * numerator + denominator ∧
      2 * numerator ≤ 2 * (roundNonneg numerator denominator * denominator) + denominator := by
  have division := Int.mul_ediv_add_emod numerator denominator
  have nonneg := Int.emod_nonneg numerator positive.ne'
  have below := Int.emod_lt_of_pos numerator positive
  rcases roundNonneg_cases numerator denominator with ⟨value, tie⟩ | ⟨value, tie⟩
  · rw [value, mul_comm (numerator / denominator)]
    omega
  · rw [value, add_mul, mul_comm (numerator / denominator)]
    omega

theorem roundHalfEven_error (numerator : ℤ) {denominator : ℤ} (positive : 0 < denominator) :
    2 * (roundHalfEven numerator denominator * denominator) ≤ 2 * numerator + denominator ∧
      2 * numerator ≤ 2 * (roundHalfEven numerator denominator * denominator) + denominator := by
  unfold roundHalfEven
  split
  · have errors := roundNonneg_error (-numerator) positive
    rw [neg_mul]
    omega
  · exact roundNonneg_error numerator positive

theorem roundNonneg_nonneg {numerator denominator : ℤ} (positive : 0 < denominator)
    (nonneg : 0 ≤ numerator) : 0 ≤ roundNonneg numerator denominator := by
  have quotient := Int.ediv_nonneg nonneg positive.le
  rcases roundNonneg_cases numerator denominator with ⟨value, _⟩ | ⟨value, _⟩ <;> omega

theorem roundHalfEven_nonneg {numerator denominator : ℤ} (positive : 0 < denominator)
    (nonneg : 0 ≤ numerator) : 0 ≤ roundHalfEven numerator denominator := by
  unfold roundHalfEven
  rw [if_neg (by omega)]
  exact roundNonneg_nonneg positive nonneg

theorem roundHalfEven_mono {smaller larger denominator : ℤ} (positive : 0 < denominator)
    (ordered : smaller ≤ larger) :
    roundHalfEven smaller denominator ≤ roundHalfEven larger denominator := by
  rcases eq_or_lt_of_le ordered with rfl | less
  · exact le_rfl
  · have upper := (roundHalfEven_error smaller positive).1
    have lower := (roundHalfEven_error larger positive).2
    have close : roundHalfEven smaller denominator * denominator <
        (roundHalfEven larger denominator + 1) * denominator := by
      rw [add_mul, one_mul]
      omega
    have := lt_of_mul_lt_mul_right close positive.le
    omega

/-- An exact multiple is not changed by rounding. -/
theorem roundHalfEven_mul_self {denominator : ℤ} (positive : 0 < denominator) (value : ℤ) :
    roundHalfEven (value * denominator) denominator = value := by
  have errors := roundHalfEven_error (value * denominator) positive
  have upper : 2 * (roundHalfEven (value * denominator) denominator - value) * denominator
      < 2 * denominator := by
    nlinarith [errors.1]
  have lower : 2 * (value - roundHalfEven (value * denominator) denominator) * denominator
      < 2 * denominator := by
    nlinarith [errors.2]
  have fromAbove := lt_of_mul_lt_mul_right upper positive.le
  have fromBelow := lt_of_mul_lt_mul_right lower positive.le
  omega

/-- Up to half of the denominator is rounded to zero, which is even. -/
theorem roundHalfEven_eq_zero_iff {numerator denominator : ℤ} (positive : 0 < denominator)
    (nonneg : 0 ≤ numerator) :
    roundHalfEven numerator denominator = 0 ↔ 2 * numerator ≤ denominator := by
  simp only [roundHalfEven, if_neg (not_lt.mpr nonneg), roundNonneg]
  by_cases small : numerator < denominator
  · rw [Int.ediv_eq_zero_of_lt nonneg small, Int.emod_eq_of_lt nonneg small]
    split
    · omega
    · split
      · omega
      · simp only [Int.zero_emod, if_true, true_iff]
        omega
  · have atLeastOne : 1 ≤ numerator / denominator := by
      rw [Int.le_ediv_iff_mul_le positive]
      omega
    refine iff_of_false ?_ (by omega)
    split_ifs <;> omega

theorem tdiv_nonpos {numerator denominator : ℤ} (nonpos : numerator ≤ 0)
    (nonneg : 0 ≤ denominator) : numerator.tdiv denominator ≤ 0 := by
  have negated := Int.tdiv_nonneg (Int.neg_nonneg.mpr nonpos) nonneg
  rw [Int.neg_tdiv] at negated
  omega

/-- A quotient that was truncated towards zero is less than one below the exact one. -/
theorem abs_lt_of_tdiv_le {numerator denominator bound : ℤ} (positive : 0 < denominator)
    (below : |numerator.tdiv denominator| ≤ bound) :
    |numerator| < (bound + 1) * denominator := by
  have upper : numerator < (numerator.tdiv denominator + 1) * denominator :=
    Int.lt_tdiv_add_one_mul_self numerator positive
  have lower : -numerator < ((-numerator).tdiv denominator + 1) * denominator :=
    Int.lt_tdiv_add_one_mul_self (-numerator) positive
  rw [Int.neg_tdiv] at lower
  rcases abs_le.mp below with ⟨fromBelow, fromAbove⟩
  rw [abs_lt]
  constructor
  · have : (-numerator.tdiv denominator + 1) * denominator ≤ (bound + 1) * denominator :=
      mul_le_mul_of_nonneg_right (by omega) positive.le
    omega
  · exact lt_of_lt_of_le upper (mul_le_mul_of_nonneg_right (by omega) positive.le)

example : roundHalfEven 25 10 = 2 ∧ roundHalfEven 35 10 = 4 ∧ roundHalfEven (-25) 10 = -2 := by
  decide

/-- Shares that are rounded down do not exceed the whole. -/
theorem sum_ediv_mul_le (amount : ℤ) {divisor : ℤ} (positive : 0 < divisor) (weights : List ℤ) :
    (weights.map fun weight => amount * weight / divisor).sum * divisor ≤
      amount * weights.sum := by
  induction weights with
  | nil => simp
  | cons weight weights ih =>
      have share := Int.ediv_mul_le (amount * weight) positive.ne'
      rw [List.map_cons, List.sum_cons, List.sum_cons, add_mul, mul_add]
      exact add_le_add share ih

/-- Each share falls short of its exact value by less than one. -/
theorem add_length_le_sum_ediv (amount : ℤ) {divisor : ℤ} (positive : 0 < divisor)
    (weights : List ℤ) :
    amount * weights.sum + weights.length ≤
      ((weights.map fun weight => amount * weight / divisor).sum + weights.length) * divisor := by
  induction weights with
  | nil => simp
  | cons weight weights ih =>
      have share : amount * weight + 1 ≤ (amount * weight / divisor + 1) * divisor :=
        Int.lt_ediv_add_one_mul_self (amount * weight) positive
      rw [List.map_cons, List.sum_cons, List.sum_cons, List.length_cons]
      push_cast
      linarith

end Rounding
