import Calculator.Proofs.Number.Fewest

/-!
# No decimal as short is closer

Of the decimals with as few digits as the one that is written for a double, none is closer to the
double, and of two that are as close the greater is written. The search takes the closer of the two
multiples of a power of ten around the double. A decimal as short that is no multiple of that power
is further away: there is room for it only beside twice the least positive double.
-/

set_option autoImplicit false

namespace Calculator

/-!
## Closer numbers
-/

/-- The first number is closer to the value than the second, or as close and not less. -/
def IsCloser (value first second : ℚ) : Prop :=
  |first - value| < |second - value| ∨ |first - value| = |second - value| ∧ second ≤ first

namespace IsCloser

variable {value first second : ℚ}

theorem of_le (close : |first - value| ≤ |second - value|) (above : second ≤ first) :
    IsCloser value first second :=
  (lt_or_eq_of_le close).imp_right fun tie => ⟨tie, above⟩

theorem refl (value first : ℚ) : IsCloser value first first :=
  of_le le_rfl le_rfl

/-- Nothing is closer to a value than itself. -/
theorem self (value second : ℚ) : IsCloser value value second := by
  by_cases same : second = value
  · rw [same]
    exact .refl value value
  · refine .inl ?_
    rw [sub_self, abs_zero]
    exact abs_pos.mpr (sub_ne_zero.mpr same)

theorem antisymm (closer : IsCloser value first second) (further : IsCloser value second first) :
    first = second := by
  rcases closer with closer | ⟨tie, above⟩
  · rcases further with further | ⟨tie, -⟩
    · exact absurd closer further.not_gt
    · exact absurd tie closer.ne'
  · rcases further with further | ⟨-, below⟩
    · exact absurd tie further.ne'
    · exact le_antisymm below above

/-- If the middle of two numbers is not above the value, the greater is closer. -/
theorem of_middle_le (above : second ≤ first) (middle : first + second ≤ 2 * value) :
    IsCloser value first second := by
  refine .of_le ?_ above
  rw [abs_sub_comm second, abs_of_nonneg (show 0 ≤ value - second by linarith)]
  exact abs_sub_le_iff.mpr ⟨by linarith, by linarith⟩

/-- If the middle of two numbers is above the value, the less is closer. -/
theorem of_lt_middle (below : first ≤ second) (middle : 2 * value < first + second) :
    IsCloser value first second := by
  rcases below.eq_or_lt with same | less
  · rw [same]
    exact .refl value second
  · refine .inl ?_
    rw [abs_of_nonneg (show 0 ≤ second - value by linarith)]
    exact abs_sub_lt_iff.mpr ⟨by linarith, by linarith⟩

private theorem div_right {scale : ℚ} (closer : IsCloser value first second)
    (positive : 0 < scale) :
    IsCloser (value / scale) (first / scale) (second / scale) := by
  have unit : 0 < |scale| := abs_pos.mpr positive.ne'
  unfold IsCloser
  rw [← sub_div, ← sub_div, abs_div, abs_div, div_lt_div_iff_of_pos_right unit,
    div_left_inj' unit.ne', div_le_div_iff_of_pos_right positive]
  exact closer

/-- A value that is not negative is closer to the positive of two opposite numbers. -/
theorem of_abs (nonneg : 0 ≤ value) (closer : IsCloser value first |second|) :
    IsCloser value first second := by
  have further : abs (|second| - value) ≤ |second - value| := by
    have distance := abs_abs_sub_abs_le second value
    rwa [abs_of_nonneg nonneg] at distance
  rcases closer with closer | ⟨tie, above⟩
  · exact .inl (closer.trans_le further)
  · exact .of_le (tie.trans_le further) ((le_abs_self second).trans above)

end IsCloser

/-!
## The search finds the closest multiple
-/

namespace RoundingInterval

variable {interval : RoundingInterval}

private theorem multiple?_isCloser {step count other : Nat} (positive : 0 < step)
    (inside : interval.contains interval.value = true)
    (found : interval.multiple? step = some count)
    (hit : interval.contains (other * step) = true) :
    IsCloser interval.value (count * step : Nat) (other * step : Nat) := by
  have split := Nat.div_add_mod' interval.value step
  have small := Nat.mod_lt interval.value positive
  have next : (interval.value / step + 1) * step = interval.value / step * step + step :=
    Nat.succ_mul _ _
  have sides : other * step ≤ interval.value / step * step ∨
      (interval.value / step + 1) * step ≤ other * step := by
    rcases Nat.lt_or_ge (interval.value / step) other with above | below
    · exact .inr (Nat.mul_le_mul_right step above)
    · exact .inl (Nat.mul_le_mul_right step below)
  have greater {first second : Nat} (above : second ≤ first)
      (middle : first + second ≤ 2 * interval.value) : IsCloser interval.value first second :=
    .of_middle_le (by exact_mod_cast above) (by exact_mod_cast middle)
  have less {first second : Nat} (below : first ≤ second)
      (middle : 2 * interval.value < first + second) : IsCloser interval.value first second :=
    .of_lt_middle (by exact_mod_cast below) (by exact_mod_cast middle)
  unfold multiple? at found
  dsimp only at found
  split at found
  next ceiling =>
    cases found
    rcases sides with below | above
    · rcases ceiling.2 with outside | near
      · have floor := contains_between hit inside below (Nat.div_mul_le_self _ _)
        rw [outside] at floor
        cases floor
      · exact greater (by omega) (by omega)
    · exact less above (by omega)
  next ceiling =>
    split at found
    next =>
      cases found
      rcases sides with below | above
      · exact greater below (by omega)
      · have reached := contains_between inside hit (by omega) above
        have far : ¬ step ≤ 2 * (interval.value % step) :=
          fun near => ceiling ⟨reached, .inr near⟩
        exact less (by omega) (by omega)
    next => cases found

/-- Of the multiples of the power of ten found, the one found is closest to the value. -/
theorem coarsest_isCloser (inside : interval.contains interval.value = true) {power other : Nat}
    (hit : interval.contains (other * 10 ^ (interval.coarsest power).2) = true) :
    IsCloser interval.value
      ((interval.coarsest power).1 * 10 ^ (interval.coarsest power).2 : Nat)
      (other * 10 ^ (interval.coarsest power).2 : Nat) := by
  induction power with
  | zero =>
      have same : (coarsest interval 0).1 * 10 ^ (coarsest interval 0).2 = interval.value :=
        Nat.mul_one _
      rw [same]
      exact .self _ _
  | succ power ih =>
      rw [coarsest] at hit ⊢
      split at hit
      next count found =>
        exact multiple?_isCloser (Nat.pow_pos (Nat.succ_pos 9)) inside found hit
      next missed =>
        exact ih hit

private theorem ofMantissa_value_div (mantissa shift : Nat) :
    ((ofMantissa mantissa shift).value : ℚ) / 10 ^ 1076 = magnitude mantissa shift := by
  have quarter := quarter_div shift (show 1076 = 1074 + 2 from rfl)
  unfold ofMantissa
  generalize 1076 = more at quarter ⊢
  change _ = unitInLastPlace shift / 4 at quarter
  rw [Nat.cast_mul, mul_div_assoc, quarter, magnitude_eq_mul]
  push_cast
  ring

end RoundingInterval

/-!
## The shortest decimal is the closest
-/

section Shortest

variable {mantissa shift : Nat}

/-- Of the multiples of the power of ten that the shortest decimal is a multiple of, it is the
closest. -/
theorem shortest_isCloser_of_multiple (positive : 0 < mantissa) {coefficient : Nat}
    (inside : InInterval (coefficient * 10 ^ (shortest mantissa shift).exponent) mantissa shift) :
    IsCloser (magnitude mantissa shift) (shortest mantissa shift).value
      (coefficient * 10 ^ (shortest mantissa shift).exponent) := by
  have center := RoundingInterval.ofMantissa_value_div mantissa shift
  have holds := RoundingInterval.ofMantissa_contains_value shift positive
  have hit := @RoundingInterval.ofMantissa_contains mantissa shift
  unfold Decimal.value
  unfold shortest at inside ⊢
  rw [if_neg positive.ne'] at inside ⊢
  dsimp only at inside ⊢
  generalize RoundingInterval.ofMantissa mantissa shift = interval at inside center holds hit ⊢
  have scaled (count : Nat) :=
    mul_zpow_sub_eq_div count (interval.coarsest interval.powerAbove).2 1076
  rw [Nat.cast_ofNat] at scaled
  rw [scaled] at inside
  rw [scaled, scaled, ← center]
  exact (RoundingInterval.coarsest_isCloser holds (hit positive inside)).div_right (by positivity)

/-- The least positive double, as a decimal. -/
theorem unitInLastPlace_zero_bounds :
    (49 / 10 : ℚ) * 10 ^ (-324 : Int) < unitInLastPlace 0 ∧
      unitInLastPlace 0 < 5 * 10 ^ (-324 : Int) := by
  have lower : (49 : ℚ) * 2 ^ 1074 < 10 * 10 ^ 324 := by
    exact_mod_cast (show 49 * 2 ^ 1074 < 10 * 10 ^ 324 by decide +kernel)
  have upper : (10 : ℚ) ^ 324 < 5 * 2 ^ 1074 := by
    exact_mod_cast (show 10 ^ 324 < 5 * 2 ^ 1074 by decide +kernel)
  have twos : (0 : ℚ) < 2 ^ 1074 := by positivity
  have tens : (0 : ℚ) < 10 ^ 324 := by positivity
  rw [unitInLastPlace, pow_zero, zpow_neg, zpow_ofNat, ← div_eq_mul_inv, ← div_eq_mul_inv]
  generalize (2 : ℚ) ^ 1074 = two at lower upper twos ⊢
  generalize (10 : ℚ) ^ 324 = ten at lower upper tens ⊢
  rw [div_lt_div_iff₀ tens twos, div_lt_div_iff₀ twos tens]
  exact ⟨by linarith, by linarith⟩

private theorem IsMagnitude.shift_eq_zero (this : IsMagnitude mantissa shift)
    (narrow : mantissa < leadingBit) : shift = 0 := by
  by_contra normal
  exact absurd (this.full normal) narrow.not_ge

private theorem lt_of_mul_unit_lt {first second : Nat} {unit : ℚ} (nonneg : 0 ≤ unit)
    (less : (first : ℚ) * unit < second * unit) : first < second := by
  exact_mod_cast lt_of_mul_lt_mul_right less nonneg

/-- Nine tenths of a power of ten round to the same double as the power only beside twice the least
positive double. -/
theorem eq_two_of_nine_tenths (this : IsMagnitude mantissa shift) (positive : 0 < mantissa)
    {power : Int} (nine : InInterval (9 * 10 ^ power) mantissa shift)
    (ten : InInterval (10 * 10 ^ power) mantissa shift) :
    mantissa = 2 ∧ shift = 0 ∧ power = -324 := by
  have unit := unitInLastPlace_pos shift
  obtain ⟨_, lower⟩ := abs_sub_le_iff.mp nine.abs_sub_le
  obtain ⟨upper, _⟩ := abs_sub_le_iff.mp ten.abs_sub_le
  rw [magnitude_eq_mul] at lower upper
  have narrow : mantissa < 10 := by
    refine lt_of_mul_unit_lt unit.le ?_
    rw [Nat.cast_ofNat]
    linarith
  obtain rfl : shift = 0 := this.shift_eq_zero (narrow.trans (by decide))
  obtain ⟨least, most⟩ := unitInLastPlace_zero_bounds
  have unitBelow : (1 * unitInLastPlace 0 : ℚ) ≤ mantissa * unitInLastPlace 0 :=
    mul_le_mul_of_nonneg_right (by exact_mod_cast positive) unit.le
  have tens (further : Int) : (10 : ℚ) ^ (further + 1) = 10 * 10 ^ further := by
    rw [zpow_add_one₀ (by norm_num), mul_comm]
  have notAbove : power < -323 := by
    refine (zpow_lt_zpow_iff_right₀ (show (1 : ℚ) < 10 by norm_num)).mp ?_
    rw [show (-323 : Int) = -324 + 1 from rfl, tens]
    linarith
  have notBelow : -325 < power := by
    refine (zpow_lt_zpow_iff_right₀ (show (1 : ℚ) < 10 by norm_num)).mp ?_
    rw [show (-324 : Int) = -325 + 1 from rfl, tens] at least
    linarith
  obtain rfl : power = -324 := by omega
  have fewer : mantissa < 3 := by
    refine lt_of_mul_unit_lt unit.le ?_
    rw [Nat.cast_ofNat]
    linarith
  have more : 1 < mantissa := by
    refine lt_of_mul_unit_lt unit.le ?_
    rw [Nat.cast_one]
    linarith
  exact ⟨by omega, rfl, rfl⟩

/-- A decimal of one digit in a finer power of ten than the shortest is further away. There is room
for it only below `10 ^ -323`, the shortest of twice the least positive double. -/
theorem shortest_isCloser_of_digit (this : IsMagnitude mantissa shift) (positive : 0 < mantissa)
    {digit : Nat} {exponent : Int} (single : digit < 10)
    (finer : exponent < (shortest mantissa shift).exponent)
    (inside : InInterval (digit * 10 ^ exponent) mantissa shift) :
    IsCloser (magnitude mantissa shift) (shortest mantissa shift).value
      (digit * 10 ^ exponent) := by
  have written := shortest_inInterval this
  have nonzero := shortest_coefficient_mod_ten this positive
  unfold Decimal.value at written ⊢
  generalize (shortest mantissa shift).coefficient = coefficient at written nonzero ⊢
  obtain ⟨power, next⟩ : ∃ power, (shortest mantissa shift).exponent = power + 1 :=
    ⟨_, (Int.sub_add_cancel _ 1).symm⟩
  rw [next, zpow_add_one₀ (by norm_num), mul_comm (_ ^ power)] at written ⊢
  have tens : (0 : ℚ) < 10 ^ power := by positivity
  have below : (digit * 10 ^ exponent : ℚ) ≤ 9 * 10 ^ power := by
    have powers : (10 : ℚ) ^ exponent ≤ 10 ^ power :=
      zpow_le_zpow_right₀ (by norm_num) (by omega)
    exact mul_le_mul (by exact_mod_cast Nat.le_of_lt_succ single) powers (by positivity)
      (by norm_num)
  have above : 1 * (10 * 10 ^ power : ℚ) ≤ coefficient * (10 * 10 ^ power) :=
    mul_le_mul_of_nonneg_right (by exact_mod_cast (show 1 ≤ coefficient by omega)) (by positivity)
  have nine := inside.between written below (by linarith)
  have ten : InInterval (10 * 10 ^ power) mantissa shift :=
    inside.between written (by linarith) (by linarith)
  obtain ⟨rfl, rfl, rfl⟩ := eq_two_of_nine_tenths this positive nine ten
  obtain ⟨least, most⟩ := unitInLastPlace_zero_bounds
  have upper := written.upper
  rw [magnitude_eq_mul] at upper ⊢
  rw [Nat.cast_ofNat] at upper ⊢
  generalize (10 : ℚ) ^ (-324 : Int) = tiny at tens below least most upper ⊢
  have fewer : coefficient < 2 := by
    refine lt_of_mul_unit_lt (show 0 ≤ 10 * tiny by positivity) ?_
    rw [Nat.cast_ofNat]
    linarith
  obtain rfl : coefficient = 1 := by omega
  rw [Nat.cast_one, one_mul]
  exact .of_middle_le (by linarith) (by linarith)

/-- Of the decimals with as few digits as the shortest that round to the double, the shortest is the
closest. -/
theorem shortest_isCloser (this : IsMagnitude mantissa shift) {coefficient count : Nat}
    {exponent : Int} (few : coefficient < 10 ^ count)
    (many : ∀ less < count, 10 ^ less ≤ (shortest mantissa shift).coefficient)
    (inside : InInterval (coefficient * 10 ^ exponent) mantissa shift) :
    IsCloser (magnitude mantissa shift) (shortest mantissa shift).value
      (coefficient * 10 ^ exponent) := by
  rcases mantissa.eq_zero_or_pos with rfl | positive
  · have zero : (shortest 0 shift).value = 0 := mul_eq_zero_of_left Nat.cast_zero _
    rw [magnitude_eq_mul, Nat.cast_zero, zero_mul, zero]
    exact .self _ _
  rcases lt_trichotomy exponent (shortest mantissa shift).exponent with finer | same | coarser
  · rcases Nat.lt_or_ge coefficient 10 with single | wide
    · exact shortest_isCloser_of_digit this positive single finer inside
    · obtain ⟨less, rfl⟩ : ∃ less, count = less + 1 + 1 :=
        Nat.exists_eq_add_of_le'
          ((Nat.pow_lt_pow_iff_right (show 1 < 10 by decide)).mp (wide.trans_lt few))
      have below := mul_zpow_le_of_le few.le (Int.le_sub_one_of_lt finer)
      rw [show ((less + 1 + 1 : Nat) + ((shortest mantissa shift).exponent - 1) : Int) =
        (less + 1 : Nat) + (shortest mantissa shift).exponent by omega] at below
      exact absurd (many (less + 1) (Nat.lt_succ_self _))
        (shortest_coefficient_lt_of_le this positive less.succ_pos inside below).not_ge
  · rw [same] at inside ⊢
    exact shortest_isCloser_of_multiple positive inside
  · exact absurd inside (not_inInterval_of_coarser positive coarser coefficient)

end Shortest

end Calculator
