import Calculator.Proofs.Number.Hundredths
import Calculator.Proofs.Number.Interval
import Mathlib.Algebra.Order.Field.Power

/-!
# No decimal is shorter

The decimal that is written for a double is a multiple of the greatest power of ten that has one
among the numbers that round to it. A decimal with fewer digits would have a power of ten of that
interval between itself and the one written.
-/

set_option autoImplicit false

namespace Calculator

/-!
## The search misses nothing
-/

namespace RoundingInterval

variable {interval : RoundingInterval}

theorem contains_between {low number high : Nat} (first : interval.contains low = true)
    (last : interval.contains high = true) (above : low ≤ number) (below : number ≤ high) :
    interval.contains number = true := by
  unfold contains at first last ⊢
  split at first
  next closed =>
    rw [if_pos closed] at last ⊢
    exact decide_eq_true
      ⟨(of_decide_eq_true first).1.trans above, below.trans (of_decide_eq_true last).2⟩
  next isOpen =>
    rw [if_neg isOpen] at last ⊢
    exact decide_eq_true
      ⟨(of_decide_eq_true first).1.trans_le above, below.trans_lt (of_decide_eq_true last).2⟩

/-- If the multiples next to the value are outside, then all multiples are. -/
theorem not_contains_of_multiple?_eq_none {step : Nat} (positive : 0 < step)
    (inside : interval.contains interval.value = true)
    (missed : interval.multiple? step = none) (count : Nat) :
    ¬ interval.contains (count * step) = true := by
  unfold multiple? at missed
  dsimp only at missed
  split at missed
  next => cases missed
  next ceiling =>
    split at missed
    next => cases missed
    next floor =>
      have ceilingOutside : ¬ interval.contains ((interval.value / step + 1) * step) = true :=
        fun hit => ceiling ⟨hit, .inl (Bool.eq_false_iff.mpr floor)⟩
      intro hit
      rcases Nat.lt_or_ge (interval.value / step) count with beyond | within
      · have above := Nat.lt_mul_div_succ interval.value positive
        rw [Nat.mul_comm] at above
        exact ceilingOutside
          (contains_between inside hit above.le (Nat.mul_le_mul_right step beyond))
      · exact floor (contains_between hit inside (Nat.mul_le_mul_right step within)
          (Nat.div_mul_le_self _ _))

/-- No power of ten greater than the one found has a multiple in the interval, up to the power where
the search begins. -/
theorem coarsest_maximal (inside : interval.contains interval.value = true) {power larger : Nat}
    (above : (interval.coarsest power).2 < larger) (within : larger ≤ power) (count : Nat) :
    ¬ interval.contains (count * 10 ^ larger) = true := by
  induction power with
  | zero => exact absurd above (by omega)
  | succ power ih =>
      rw [coarsest] at above
      split at above
      next found => exact absurd above (Nat.not_lt_of_le within)
      next missed =>
        rcases Nat.lt_or_eq_of_le within with less | same
        · exact ih above (Nat.le_of_lt_succ less)
        · rw [same]
          exact not_contains_of_multiple?_eq_none (Nat.pow_pos (Nat.succ_pos 9)) inside missed count

private theorem two_pow_le_ten_pow (bits : Nat) : 2 ^ bits ≤ 10 ^ (bits * 28 / 93 + 1) := by
  have enough : bits * 28 ≤ (bits * 28 / 93 + 1) * 93 := by omega
  have powers : (2 ^ bits) ^ 93 ≤ (10 ^ (bits * 28 / 93 + 1)) ^ 93 := by
    calc (2 ^ bits) ^ 93 = (2 ^ 93) ^ bits := by rw [← Nat.pow_mul, Nat.mul_comm, Nat.pow_mul]
      _ ≤ (10 ^ 28) ^ bits := Nat.pow_le_pow_left (by decide) bits
      _ = 10 ^ (bits * 28) := by rw [← Nat.pow_mul, Nat.mul_comm]
      _ ≤ 10 ^ ((bits * 28 / 93 + 1) * 93) := Nat.pow_le_pow_right (by decide) enough
      _ = (10 ^ (bits * 28 / 93 + 1)) ^ 93 := Nat.pow_mul _ _ _
  exact (Nat.pow_le_pow_iff_left (by decide)).mp powers

private theorem upper_lt_powerAbove (interval : RoundingInterval) :
    interval.upper < 10 ^ interval.powerAbove :=
  Nat.lt_log2_self.trans_le (two_pow_le_ten_pow _)

/-- No power of ten greater than the one found has a multiple in the interval. -/
theorem coarsest_powerAbove_maximal (inside : interval.contains interval.value = true)
    (positive : 0 < interval.lower) {larger : Nat}
    (above : (interval.coarsest interval.powerAbove).2 < larger) (count : Nat) :
    ¬ interval.contains (count * 10 ^ larger) = true := by
  rcases Nat.le_total larger interval.powerAbove with within | beyond
  · exact coarsest_maximal inside above within count
  · intro hit
    obtain ⟨lower, upper, -⟩ := le_of_contains hit
    have counts : 0 < count := Nat.pos_of_mul_pos_right (positive.trans_le lower)
    have large : 10 ^ interval.powerAbove ≤ count * 10 ^ larger :=
      (Nat.pow_le_pow_right (by decide) beyond).trans (Nat.le_mul_of_pos_left _ counts)
    exact absurd (interval.upper_lt_powerAbove.trans_le large) (Nat.not_lt_of_le upper)

/-!
## From the interval to the numbers
-/

section Numbers

variable {mantissa shift number : Nat}

theorem quarter_div (shift : Nat) {power more : Nat} (two : more = power + 2) :
    ((Nat.pow 5 more <<< shift : Nat) : ℚ) / 10 ^ more = 2 ^ shift / 2 ^ power / 4 := by
  have ten : ((10 : ℚ)) ^ more = 4 * 2 ^ power * 5 ^ more := by exact_mod_cast ten_pow_eq two
  have fives : (5 : ℚ) ^ more ≠ 0 := by positivity
  rw [ten, Nat.shiftLeft_eq, Nat.pow_eq]
  push_cast
  field_simp

private theorem contains_of_scaled {unit value : Nat} {scale : ℚ} (positive : 0 < mantissa)
    (scalePositive : 0 < scale) (quarter : unit / scale = unitInLastPlace shift / 4)
    (inside : InInterval (number / scale) mantissa shift) :
    contains
      { lower := (4 * mantissa - gapBelow mantissa shift) * unit
        value
        upper := (4 * mantissa + 2) * unit
        closed := decide (mantissa % 2 = 0) } number = true := by
  have gap : gapBelow mantissa shift ≤ 4 * mantissa := by
    have most := gapBelow_le mantissa shift
    omega
  have lowerEnd : magnitude mantissa shift - gapBelow mantissa shift * (unitInLastPlace shift / 4) =
      ((4 * mantissa - gapBelow mantissa shift) * unit : Nat) / scale := by
    rw [Nat.cast_mul, mul_div_assoc, quarter, Nat.cast_sub gap, magnitude_eq_mul]
    push_cast
    ring
  have upperEnd : magnitude mantissa shift + unitInLastPlace shift / 2 =
      ((4 * mantissa + 2) * unit : Nat) / scale := by
    rw [Nat.cast_mul, mul_div_assoc, quarter, magnitude_eq_mul]
    push_cast
    ring
  obtain ⟨lower, upper, strict⟩ := inside
  rw [lowerEnd, div_le_div_iff_of_pos_right scalePositive, Nat.cast_le] at lower
  rw [upperEnd, div_le_div_iff_of_pos_right scalePositive, Nat.cast_le] at upper
  rw [lowerEnd, upperEnd, div_lt_div_iff_of_pos_right scalePositive,
    div_lt_div_iff_of_pos_right scalePositive, Nat.cast_lt, Nat.cast_lt] at strict
  unfold contains
  rcases Nat.mod_two_eq_zero_or_one mantissa with even | odd
  · rw [if_pos (decide_eq_true even)]
    exact decide_eq_true ⟨lower, upper⟩
  · rw [if_neg (by simp [odd])]
    exact decide_eq_true (strict odd)

/-- A whole number of units of `10 ^ -1076` in the interval of a magnitude is inside for the
search. -/
theorem ofMantissa_contains (positive : 0 < mantissa)
    (inside : InInterval (number / 10 ^ 1076) mantissa shift) :
    (ofMantissa mantissa shift).contains number = true := by
  unfold ofMantissa
  have quarter := quarter_div shift (show 1076 = 1074 + 2 from rfl)
  generalize 1076 = more at inside quarter ⊢
  exact contains_of_scaled positive (by positivity) quarter inside

private theorem ofMantissa_lower_pos (shift : Nat) (positive : 0 < mantissa) :
    0 < (ofMantissa mantissa shift).lower := by
  unfold ofMantissa
  generalize 1076 = more
  have gap := gapBelow_le mantissa shift
  unfold gapBelow at gap
  exact Nat.mul_pos (by omega) (quarter_pos more shift)

end Numbers

end RoundingInterval

/-!
## The shortest decimal
-/

section Shortest

variable {mantissa shift : Nat}

/-- The double that a decimal is written for is nearest to it. -/
theorem shortest_isNearest (this : IsMagnitude mantissa shift) :
    (shortest mantissa shift).value < 2 ^ 1024 - 2 ^ 970 ∧
      IsNearest (shortest mantissa shift).value (magnitude mantissa shift) mantissa := by
  have read := (shortest mantissa shift).toFloat_isNearestDouble
  rw [Decimal.toFloat_of_roundsTo (shortest_roundsTo this) this] at read
  have stands := Binary64.ofFloat_of_word this (toBits_ofBits this.word_lt)
  cases read with
  | infinite _ shape =>
      rw [stands] at shape
      cases shape
  | finite small shape le even =>
      rw [stands] at shape
      cases shape
      exact ⟨small, le, even⟩

theorem Decimal.value_nonneg (number : Decimal) : 0 ≤ number.value := by
  unfold value
  positivity

theorem mul_zpow_sub_eq_div (coefficient power more : Nat) :
    (coefficient : ℚ) * 10 ^ ((power : Int) - more) =
      (coefficient * 10 ^ power : Nat) / 10 ^ more := by
  rw [zpow_sub₀ (by norm_num), zpow_natCast, zpow_natCast, ← mul_div_assoc]
  push_cast
  rfl

theorem shortest_inInterval (this : IsMagnitude mantissa shift) :
    InInterval (shortest mantissa shift).value mantissa shift :=
  (shortest_isNearest this).2.inInterval this (Decimal.value_nonneg _) (shortest_isNearest this).1

/-- No multiple of a greater power of ten rounds to the double. -/
theorem not_inInterval_of_coarser (positive : 0 < mantissa) {exponent : Int}
    (coarser : (shortest mantissa shift).exponent < exponent) (coefficient : Nat) :
    ¬ InInterval (coefficient * 10 ^ exponent) mantissa shift := by
  intro inside
  unfold shortest at coarser
  rw [if_neg positive.ne'] at coarser
  dsimp only at coarser
  obtain ⟨larger, rfl⟩ : ∃ larger : Nat, exponent = larger - (1076 : Nat) :=
    ⟨(exponent + 1076).toNat, by omega⟩
  rw [mul_zpow_sub_eq_div] at inside
  exact RoundingInterval.coarsest_powerAbove_maximal
    (RoundingInterval.ofMantissa_contains_value shift positive)
    (RoundingInterval.ofMantissa_lower_pos shift positive) (by omega) coefficient
    (RoundingInterval.ofMantissa_contains positive inside)

theorem shortest_coefficient_mod_ten (this : IsMagnitude mantissa shift) (positive : 0 < mantissa) :
    (shortest mantissa shift).coefficient % 10 ≠ 0 := by
  intro zero
  have inside := shortest_inInterval this
  obtain ⟨tenth, multiple⟩ := Nat.dvd_of_mod_eq_zero zero
  have coarser := Int.lt_succ (shortest mantissa shift).exponent
  refine not_inInterval_of_coarser positive coarser tenth ?_
  rw [Decimal.value, multiple, Nat.cast_mul, mul_comm _ (tenth : ℚ), mul_assoc,
    Nat.cast_ofNat, ← zpow_one_add₀ (by norm_num), add_comm] at inside
  exact inside

theorem mul_zpow_le_of_le {coefficient count : Nat} {exponent power : Int}
    (few : coefficient ≤ 10 ^ count) (finer : exponent ≤ power) :
    (coefficient * 10 ^ exponent : ℚ) ≤ 10 ^ (count + power) := by
  have powers := zpow_le_zpow_right₀ (show (1 : ℚ) ≤ 10 by norm_num) finer
  rw [zpow_add₀ (by norm_num), zpow_natCast]
  exact mul_le_mul (by exact_mod_cast few) powers (by positivity) (by positivity)

/-- If a number up to a power of ten rounds to the double, then the decimal that is written is below
this power: else the power, a multiple of a greater one than the one found, would lie between the
two. -/
theorem shortest_coefficient_lt_of_le (this : IsMagnitude mantissa shift) (positive : 0 < mantissa)
    {exact : ℚ} {count : Nat} (counts : 0 < count) (inside : InInterval exact mantissa shift)
    (below : exact ≤ 10 ^ (count + (shortest mantissa shift).exponent)) :
    (shortest mantissa shift).coefficient < 10 ^ count := by
  refine Nat.lt_of_not_le fun many => ?_
  have above : (10 ^ (count + (shortest mantissa shift).exponent) : ℚ) ≤
      (shortest mantissa shift).value := by
    rw [zpow_add₀ (by norm_num), zpow_natCast]
    exact mul_le_mul_of_nonneg_right (by exact_mod_cast many) (by positivity)
  have between := inside.between (shortest_inInterval this) below above
  rw [← one_mul (10 ^ _ : ℚ), ← Nat.cast_one] at between
  exact not_inInterval_of_coarser positive (by omega) 1 between

/-- If a decimal with few digits rounds to the double, then the one that is written has as few. -/
theorem shortest_coefficient_lt (this : IsMagnitude mantissa shift)
    {coefficient count : Nat} {exponent : Int} (few : coefficient < 10 ^ count)
    (inside : InInterval (coefficient * 10 ^ exponent) mantissa shift) :
    (shortest mantissa shift).coefficient < 10 ^ count := by
  rcases mantissa.eq_zero_or_pos with rfl | positive
  · exact Nat.pow_pos (Nat.succ_pos 9)
  have finer : exponent ≤ (shortest mantissa shift).exponent :=
    le_of_not_gt fun coarser => not_inInterval_of_coarser positive coarser coefficient inside
  rcases count.eq_zero_or_pos with rfl | counts
  · rw [Nat.lt_one_iff.mp few, Nat.cast_zero, zero_mul] at inside
    refine absurd inside fun zero => ?_
    rw [← zero_mul (10 ^ ((shortest mantissa shift).exponent + 1) : ℚ), ← Nat.cast_zero] at zero
    exact not_inInterval_of_coarser positive (Int.lt_succ _) 0 zero
  · exact shortest_coefficient_lt_of_le this positive counts inside (mul_zpow_le_of_le few.le finer)

end Shortest

end Calculator
