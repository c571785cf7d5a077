import Calculator.Proofs.Number.Exact
import Mathlib.Tactic.Ring

/-!
# The numbers around a double

A double is nearest to the numbers that are no further from it than halfway to the doubles next to
it. So they form an interval, which holds its ends if and only if the mantissa is even.
-/

set_option autoImplicit false

namespace Calculator

/-- The distance from a magnitude to the next one. -/
def unitInLastPlace (shift : Nat) : ℚ :=
  2 ^ shift / 2 ^ 1074

/-- A number lies between the middles of a magnitude and those next to it. -/
structure InInterval (exact : ℚ) (mantissa shift : Nat) : Prop where
  lower : magnitude mantissa shift - gapBelow mantissa shift * (unitInLastPlace shift / 4) ≤ exact
  upper : exact ≤ magnitude mantissa shift + unitInLastPlace shift / 2
  strict : mantissa % 2 = 1 →
    magnitude mantissa shift - gapBelow mantissa shift * (unitInLastPlace shift / 4) < exact ∧
      exact < magnitude mantissa shift + unitInLastPlace shift / 2

/-- To a number, no double is nearer than the one of the given number and mantissa, and one that is
as near leaves the even mantissa to it. -/
structure IsNearest (exact number : ℚ) (mantissa : Nat) : Prop where
  le : ∀ other otherNumber, (Binary64.ofFloat other).number? = some otherNumber →
    |exact - number| ≤ |exact - otherNumber|
  even : ∀ other otherNumber, (Binary64.ofFloat other).number? = some otherNumber →
    otherNumber ≠ number → |exact - number| = |exact - otherNumber| → mantissa % 2 = 0

variable {exact number otherNumber : ℚ} {mantissa shift : Nat}

theorem unitInLastPlace_pos (shift : Nat) : 0 < unitInLastPlace shift := by
  unfold unitInLastPlace
  positivity

theorem unitInLastPlace_succ (shift : Nat) :
    unitInLastPlace (shift + 1) = 2 * unitInLastPlace shift := by
  unfold unitInLastPlace
  rw [pow_succ' 2 shift, mul_div_assoc]

theorem unitInLastPlace_mono {least most : Nat} (within : least ≤ most) :
    unitInLastPlace least ≤ unitInLastPlace most := by
  unfold unitInLastPlace
  rw [div_le_div_iff_of_pos_right (by positivity)]
  exact pow_le_pow_right₀ (by norm_num) within

theorem unitInLastPlace_eq {places : Nat} (sum : shift + places = 1074) :
    unitInLastPlace shift = 1 / 2 ^ places := by
  have power : (2 : ℚ) ^ 1074 = 2 ^ shift * 2 ^ places := by rw [← pow_add, sum]
  have positive : (2 : ℚ) ^ shift ≠ 0 := by positivity
  rw [unitInLastPlace, power, ← div_div, div_self positive]

theorem magnitude_eq_mul (mantissa shift : Nat) :
    magnitude mantissa shift = mantissa * unitInLastPlace shift :=
  mul_div_assoc _ _ _

private theorem gapBelow_pos (mantissa shift : Nat) : 0 < gapBelow mantissa shift := by
  unfold gapBelow
  split <;> decide

theorem InInterval.between {low high : ℚ} (first : InInterval low mantissa shift)
    (last : InInterval high mantissa shift) (above : low ≤ exact) (below : exact ≤ high) :
    InInterval exact mantissa shift where
  lower := first.lower.trans above
  upper := below.trans last.upper
  strict odd := ⟨(first.strict odd).1.trans_le above, below.trans_lt (last.strict odd).2⟩

theorem gapBelow_cast_le (mantissa shift : Nat) : (gapBelow mantissa shift : ℚ) ≤ 2 :=
  Nat.cast_le_ofNat.mpr (gapBelow_le mantissa shift)

theorem InInterval.abs_sub_le (inside : InInterval exact mantissa shift) :
    |exact - magnitude mantissa shift| ≤ unitInLastPlace shift / 2 := by
  have unit := unitInLastPlace_pos shift
  have below := mul_le_mul_of_nonneg_right (gapBelow_cast_le mantissa shift)
    (show 0 ≤ unitInLastPlace shift / 4 by positivity)
  have lower := inside.lower
  have upper := inside.upper
  exact abs_sub_le_iff.mpr ⟨by linarith, by linarith⟩

/-!
## Doubles next to each other
-/

namespace IsMagnitude

/-- Above every magnitude but the last one, there is another at the distance of one unit. -/
theorem exists_next (this : IsMagnitude mantissa shift)
    (further : ¬ (mantissa = 2 * leadingBit - 1 ∧ shift = 2045)) :
    ∃ next nextShift, IsMagnitude next nextShift ∧
      magnitude next nextShift = magnitude mantissa shift + unitInLastPlace shift := by
  have leading := leadingBit_eq
  have narrow := this.mantissa_lt
  have least := this.shift_le
  have full := this.full
  by_cases carries : mantissa + 1 = 2 * leadingBit
  · have cast : (mantissa + 1 : ℚ) = 2 * leadingBit := by exact_mod_cast carries
    refine ⟨leadingBit, shift + 1, ⟨by omega, by omega, fun _ => le_rfl⟩, ?_⟩
    rw [magnitude_eq_mul, magnitude_eq_mul, unitInLastPlace_succ, ← add_one_mul, cast]
    ring
  · refine ⟨mantissa + 1, shift, ⟨by omega, least, fun normal => by have := full normal; omega⟩, ?_⟩
    rw [magnitude_eq_mul, magnitude_eq_mul]
    push_cast
    ring

/-- Below every magnitude but zero, there is another at the distance of one unit, or of half a
unit. -/
theorem exists_previous (this : IsMagnitude mantissa shift) (positive : 0 < mantissa) :
    ∃ previous previousShift, IsMagnitude previous previousShift ∧
      magnitude previous previousShift =
        magnitude mantissa shift - gapBelow mantissa shift * (unitInLastPlace shift / 2) := by
  have leading := leadingBit_eq
  have narrow := this.mantissa_lt
  have least := this.shift_le
  have full := this.full
  by_cases power : mantissa = leadingBit ∧ shift ≠ 0
  · obtain ⟨rfl, normal⟩ := power
    obtain ⟨lesser, rfl⟩ := Nat.exists_eq_succ_of_ne_zero normal
    have gap : gapBelow leadingBit (lesser + 1) = 1 := if_pos ⟨rfl, normal⟩
    have ones : ((2 * leadingBit - 1 : Nat) : ℚ) = 2 * leadingBit - 1 := by
      rw [leading]
      norm_num
    refine ⟨2 * leadingBit - 1, lesser, ⟨by omega, by omega, fun _ => by omega⟩, ?_⟩
    rw [gap, magnitude_eq_mul, magnitude_eq_mul, ones, unitInLastPlace_succ]
    push_cast
    ring
  · have gap : gapBelow mantissa shift = 2 := if_neg power
    refine ⟨mantissa - 1, shift, ⟨by omega, least, fun normal => ?_⟩, ?_⟩
    · have wide := full normal
      omega
    · rw [gap, magnitude_eq_mul, magnitude_eq_mul, Nat.cast_sub positive]
      push_cast
      ring

theorem exists_double (this : IsMagnitude mantissa shift) :
    ∃ value, (Binary64.ofFloat value).number? = some (magnitude mantissa shift) := by
  refine ⟨Float.ofBits (UInt64.ofNat (shift * leadingBit + mantissa)), ?_⟩
  rw [Binary64.ofFloat_of_word this (toBits_ofBits this.word_lt)]
  rfl

end IsMagnitude

theorem Binary64.exists_opposite {value : Float}
    (stands : (ofFloat value).number? = some number) :
    ∃ opposite, (ofFloat opposite).number? = some (-number) := by
  cases shape : ofFloat value with
  | nan | infinite => simp [shape, number?] at stands
  | finite negative mantissa shift =>
      rw [shape, number?, Option.some.injEq] at stands
      refine ⟨-value, ?_⟩
      rw [ofFloat_neg shape, number?, ← stands]
      cases negative <;> simp

/-- Half a unit above the last magnitude, doubles end. -/
theorem last_add_half_unit :
    magnitude (2 * leadingBit - 1) 2045 + unitInLastPlace 2045 / 2 = 2 ^ 1024 - 2 ^ 970 := by
  have ones : ((2 ^ 54 - 1 : Nat) : ℚ) = 2 * (2 * leadingBit - 1 : Nat) + 1 := by
    rw [leadingBit_eq]
    norm_num
  rw [last_middle_eq, magnitude_eq_mul, unitInLastPlace, Nat.cast_mul, Nat.cast_pow,
    Nat.cast_ofNat, ones, mul_div_assoc]
  generalize (2 ^ 2045 / 2 ^ 1074 : ℚ) = unit
  ring

/-!
## The nearest double
-/

namespace IsNearest

theorem neg (nearest : IsNearest exact number mantissa) :
    IsNearest (-exact) (-number) mantissa := by
  have mirrored (other : ℚ) : |-exact - other| = |exact - -other| := by
    rw [← abs_neg]
    congr 1
    ring
  refine ⟨fun other otherNumber stands => ?_, fun other otherNumber stands different tie => ?_⟩
  · obtain ⟨opposite, mirror⟩ := Binary64.exists_opposite stands
    rw [mirrored, mirrored, neg_neg]
    exact nearest.le opposite _ mirror
  · obtain ⟨opposite, mirror⟩ := Binary64.exists_opposite stands
    rw [mirrored, mirrored, neg_neg] at tie
    exact nearest.even opposite _ mirror (fun same => different (by rw [← same, neg_neg])) tie

/-- Between the nearest double and a greater one, the number does not lie beyond the middle. -/
theorem le_middle (nearest : IsNearest exact number mantissa) {other : Float}
    (stands : (Binary64.ofFloat other).number? = some otherNumber)
    (above : number < otherNumber) :
    2 * exact ≤ number + otherNumber ∧
      (mantissa % 2 = 1 → 2 * exact < number + otherNumber) := by
  have upper : 2 * exact ≤ number + otherNumber := by
    refine le_of_not_gt fun beyond => absurd (nearest.le other otherNumber stands) (not_le_of_gt ?_)
    exact abs_sub_lt_of_middle above.ne (fun below => absurd below above.not_gt)
      fun _ => by linarith
  refine ⟨upper, fun odd => lt_of_le_of_ne upper fun middle => ?_⟩
  have tie : |exact - number| = |exact - otherNumber| := by
    rw [abs_sub_comm exact otherNumber]
    congr 1
    linarith
  have even := nearest.even other otherNumber stands above.ne' tie
  omega

private theorem middle_le (nearest : IsNearest exact number mantissa) {other : Float}
    (stands : (Binary64.ofFloat other).number? = some otherNumber) (below : otherNumber < number) :
    number + otherNumber ≤ 2 * exact ∧
      (mantissa % 2 = 1 → number + otherNumber < 2 * exact) := by
  obtain ⟨opposite, mirror⟩ := Binary64.exists_opposite stands
  obtain ⟨lower, strict⟩ := nearest.neg.le_middle mirror (neg_lt_neg below)
  exact ⟨by linarith, fun odd => by have lower := strict odd; linarith⟩

private theorem upper (nearest : IsNearest exact (magnitude mantissa shift) mantissa)
    (this : IsMagnitude mantissa shift) (small : exact < 2 ^ 1024 - 2 ^ 970) :
    exact ≤ magnitude mantissa shift + unitInLastPlace shift / 2 ∧
      (mantissa % 2 = 1 → exact < magnitude mantissa shift + unitInLastPlace shift / 2) := by
  by_cases last : mantissa = 2 * leadingBit - 1 ∧ shift = 2045
  · rw [last.1, last.2, last_add_half_unit]
    exact ⟨small.le, fun _ => small⟩
  · obtain ⟨next, nextShift, further, distance⟩ := this.exists_next last
    obtain ⟨other, stands⟩ := further.exists_double
    have unit := unitInLastPlace_pos shift
    obtain ⟨upper, strict⟩ := nearest.le_middle stands (by linarith)
    exact ⟨by linarith, fun odd => by have upper := strict odd; linarith⟩

private theorem lower (nearest : IsNearest exact (magnitude mantissa shift) mantissa)
    (this : IsMagnitude mantissa shift) (nonneg : 0 ≤ exact) :
    magnitude mantissa shift - gapBelow mantissa shift * (unitInLastPlace shift / 4) ≤ exact ∧
      (mantissa % 2 = 1 → magnitude mantissa shift -
        gapBelow mantissa shift * (unitInLastPlace shift / 4) < exact) := by
  have gap : 0 < (gapBelow mantissa shift : ℚ) * unitInLastPlace shift :=
    mul_pos (Nat.cast_pos.mpr (gapBelow_pos mantissa shift)) (unitInLastPlace_pos shift)
  rcases mantissa.eq_zero_or_pos with zero | positive
  · rw [magnitude_eq_mul, zero, Nat.cast_zero, zero_mul]
    rw [zero] at gap
    exact ⟨by linarith, fun _ => by linarith⟩
  · obtain ⟨previous, previousShift, before, distance⟩ := this.exists_previous positive
    obtain ⟨other, stands⟩ := before.exists_double
    obtain ⟨lower, strict⟩ := nearest.middle_le stands (by linarith)
    exact ⟨by linarith, fun odd => by have lower := strict odd; linarith⟩

/-- A number that is not negative lies in the interval of the double that is nearest to it. -/
theorem inInterval (nearest : IsNearest exact (magnitude mantissa shift) mantissa)
    (this : IsMagnitude mantissa shift) (nonneg : 0 ≤ exact)
    (small : exact < 2 ^ 1024 - 2 ^ 970) : InInterval exact mantissa shift where
  lower := (nearest.lower this nonneg).1
  upper := (nearest.upper this small).1
  strict odd := ⟨(nearest.lower this nonneg).2 odd, (nearest.upper this small).2 odd⟩

end IsNearest

end Calculator
