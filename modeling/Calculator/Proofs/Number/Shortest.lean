import Calculator.Decimal.Shortest
import Calculator.Proofs.Number.Nearest

/-!
# Shortest decimals read back

The decimal that is written for a double lies among the numbers that round to it. So whatever decimal
has the same value is read as this double, however it is spelled.
-/

set_option autoImplicit false

namespace Calculator

/-!
## The search stays inside
-/

namespace RoundingInterval

variable {interval : RoundingInterval}

private theorem multiple?_contains {step count : Nat}
    (found : interval.multiple? step = some count) :
    interval.contains (count * step) = true := by
  unfold multiple? at found
  dsimp only at found
  split at found
  · rename_i ceiling
    cases found
    exact ceiling.1
  · split at found
    · rename_i floor
      cases found
      exact floor
    · cases found

private theorem coarsest_contains (inside : interval.contains interval.value = true) (power : Nat) :
    interval.contains
      ((interval.coarsest power).1 * 10 ^ (interval.coarsest power).2) = true := by
  induction power with
  | zero =>
      rw [coarsest, Nat.pow_zero, Nat.mul_one]
      exact inside
  | succ power ih =>
      rw [coarsest]
      split
      next count found => exact multiple?_contains found
      next => exact ih

theorem le_of_contains {number : Nat} (inside : interval.contains number = true) :
    interval.lower ≤ number ∧ number ≤ interval.upper ∧
      (interval.closed = false → interval.lower < number ∧ number < interval.upper) := by
  unfold contains at inside
  split at inside
  · rename_i closed
    obtain ⟨lower, upper⟩ := of_decide_eq_true inside
    exact ⟨lower, upper, fun isOpen => by rw [isOpen] at closed; cases closed⟩
  · obtain ⟨lower, upper⟩ := of_decide_eq_true inside
    exact ⟨Nat.le_of_lt lower, Nat.le_of_lt upper, fun _ => ⟨lower, upper⟩⟩

private theorem contains_of_lt {number : Nat} (lower : interval.lower < number)
    (upper : number < interval.upper) : interval.contains number = true := by
  unfold contains
  split
  · exact decide_eq_true ⟨Nat.le_of_lt lower, Nat.le_of_lt upper⟩
  · exact decide_eq_true ⟨lower, upper⟩

theorem quarter_pos (power shift : Nat) : 0 < Nat.pow 5 power <<< shift := by
  rw [Nat.shiftLeft_eq]
  exact Nat.mul_pos (Nat.pow_pos (Nat.succ_pos 4)) (Nat.two_pow_pos shift)

private theorem contains_value {mantissa shift unit : Nat} {closed : Bool} (positive : 0 < mantissa)
    (unitPositive : 0 < unit) :
    contains
      { lower := (4 * mantissa - gapBelow mantissa shift) * unit
        value := 4 * mantissa * unit
        upper := (4 * mantissa + 2) * unit
        closed } (4 * mantissa * unit) = true := by
  apply contains_of_lt
  · have gap : 4 * mantissa - gapBelow mantissa shift < 4 * mantissa := by
      unfold gapBelow
      split <;> omega
    exact Nat.mul_lt_mul_of_pos_right gap unitPositive
  · exact Nat.mul_lt_mul_of_pos_right (Nat.lt_add_of_pos_right (Nat.succ_pos 1)) unitPositive

theorem ofMantissa_contains_value {mantissa : Nat} (shift : Nat) (positive : 0 < mantissa) :
    (ofMantissa mantissa shift).contains (ofMantissa mantissa shift).value = true := by
  unfold ofMantissa
  generalize 1076 = power
  exact contains_value positive (quarter_pos power shift)

end RoundingInterval

/-!
## From the interval to the quotient
-/

section Scaled

variable {scale den number quotient : Nat}

/-- Comparing a number with a multiple and comparing the quotient with it is the same in units that
differ by a factor. -/
theorem mul_le_iff_of_scaled (scalePositive : 0 < scale) (denPositive : 0 < den)
    (same : number * den = quotient * scale) (multiple : Nat) :
    multiple * scale ≤ number ↔ multiple * den ≤ quotient := by
  rw [← Nat.mul_le_mul_right_iff denPositive, same, Nat.mul_right_comm,
    Nat.mul_le_mul_right_iff scalePositive]

private theorem le_mul_iff_of_scaled (scalePositive : 0 < scale) (denPositive : 0 < den)
    (same : number * den = quotient * scale) (multiple : Nat) :
    number ≤ multiple * scale ↔ quotient ≤ multiple * den := by
  rw [← Nat.mul_le_mul_right_iff denPositive, same, Nat.mul_right_comm,
    Nat.mul_le_mul_right_iff scalePositive]

end Scaled

theorem ten_pow_eq {power more : Nat} (two : more = power + 2) :
    10 ^ more = 4 * 2 ^ power * Nat.pow 5 more := by
  show 10 ^ more = 4 * 2 ^ power * 5 ^ more
  rw [show 10 = 2 * 5 from rfl, Nat.mul_pow, two, Nat.pow_add 2, Nat.mul_comm (2 ^ power)]

/-- A quotient between the ends of an interval rounds to its magnitude. The ends are counted in units
of `10 ^ -more`, of which `5 ^ more` are a quarter of `2 ^ -power`. -/
theorem roundsTo_of_ends {mantissa shift number num den power more : Nat} (two : more = power + 2)
    (positive : 0 < den) (same : number * den = num * 10 ^ more)
    (lower : (4 * mantissa - gapBelow mantissa shift) * (Nat.pow 5 more <<< shift) ≤ number)
    (upper : number ≤ (4 * mantissa + 2) * (Nat.pow 5 more <<< shift))
    (strict : mantissa % 2 = 1 →
      (4 * mantissa - gapBelow mantissa shift) * (Nat.pow 5 more <<< shift) < number ∧
        number < (4 * mantissa + 2) * (Nat.pow 5 more <<< shift)) :
    RoundsTo mantissa shift (num <<< power) den := by
  have scalePositive : 0 < Nat.pow 5 more := Nat.pow_pos (Nat.succ_pos 4)
  have scaled : number * den = 4 * (num <<< power) * Nat.pow 5 more := by
    rw [same, ten_pow_eq two, Nat.shiftLeft_eq]
    ac_rfl
  have quarters (count : Nat) :
      count * (Nat.pow 5 more <<< shift) = count * 2 ^ shift * Nat.pow 5 more := by
    rw [Nat.shiftLeft_eq, Nat.mul_comm (Nat.pow 5 more), Nat.mul_assoc]
  rw [quarters] at lower upper
  rw [quarters, quarters] at strict
  have atLower := mul_le_iff_of_scaled scalePositive positive scaled
  have atUpper := le_mul_iff_of_scaled scalePositive positive scaled
  generalize num <<< power = units at atLower atUpper
  refine ⟨?_, ?_, fun odd => ?_⟩
  · have bound := (atLower _).mp lower
    rw [Nat.mul_assoc, Nat.sub_mul, Nat.mul_assoc 4] at bound
    omega
  · have bound := (atUpper _).mp upper
    rw [Nat.mul_assoc, Nat.add_mul, Nat.mul_assoc 4] at bound
    omega
  · have below := mt (atUpper _).mpr (Nat.not_le_of_lt (strict odd).1)
    have above := mt (atLower _).mpr (Nat.not_le_of_lt (strict odd).2)
    rw [Nat.mul_assoc, Nat.sub_mul, Nat.mul_assoc 4] at below
    rw [Nat.mul_assoc, Nat.add_mul, Nat.mul_assoc 4] at above
    omega

private theorem roundsTo_of_contains {mantissa shift number num den : Nat}
    (inside : (RoundingInterval.ofMantissa mantissa shift).contains number = true)
    (positive : 0 < den) (same : number * den = num * 10 ^ 1076) :
    RoundsTo mantissa shift (num <<< 1074) den := by
  obtain ⟨lower, upper, strict⟩ := RoundingInterval.le_of_contains inside
  unfold RoundingInterval.ofMantissa at lower upper strict
  have two : 1076 = 1074 + 2 := rfl
  generalize 1076 = more at two same lower upper strict
  exact roundsTo_of_ends two positive same lower upper
    fun odd => strict (decide_eq_false (by omega))

/-!
## Decimals as quotients
-/

namespace Decimal

theorem denominator_pos (number : Decimal) : 0 < number.denominator :=
  Nat.pow_pos (Nat.succ_pos 9)

/-- A decimal as a multiple of a power of ten, none of its places being further right than
`more`. -/
theorem mul_denominator_eq (count power more : Nat) :
    count * 10 ^ power * denominator { coefficient := count, exponent := (power : Int) - more } =
      numerator { coefficient := count, exponent := (power : Int) - more } * 10 ^ more := by
  unfold numerator denominator
  dsimp only
  obtain ⟨zeros, rfl⟩ | ⟨places, rfl⟩ :
      (∃ zeros, power = more + zeros) ∨ ∃ places, more = power + places := by
    by_cases whole : more ≤ power
    · exact .inl (Nat.exists_eq_add_of_le whole)
    · exact .inr (Nat.exists_eq_add_of_le (Nat.le_of_not_le whole))
  · have above : ((more + zeros : Nat) - (more : Int)).toNat = zeros := by omega
    have below : (-((more + zeros : Nat) - (more : Int))).toNat = 0 := by omega
    rw [above, below, Nat.pow_add, Nat.mul_comm (10 ^ more), ← Nat.mul_assoc]
    exact Nat.mul_one _
  · have above : ((power : Int) - (power + places : Nat)).toNat = 0 := by omega
    have below : (-((power : Int) - (power + places : Nat))).toNat = places := by omega
    rw [above, below, Nat.pow_add, ← Nat.mul_assoc]
    show _ = count * 1 * _ * _
    rw [Nat.mul_one, Nat.pow_eq]

private theorem eight_pow_le (power : Nat) : 2 ^ (3 * power) ≤ Nat.pow 10 power := by
  rw [Nat.pow_mul]
  exact Nat.pow_le_pow_left (by decide) power

private theorem lt_log2_of_half_le {coefficient places power : Nat}
    (half : 2 * 2 ^ places ≤ 4 * (coefficient <<< power)) :
    places < coefficient.log2 + power + 2 := by
  have narrow : coefficient < 2 ^ (coefficient.log2 + 1) := Nat.lt_log2_self
  have powers : 2 ^ (places + 1) < 2 ^ (coefficient.log2 + 1 + power + 2) := by
    calc 2 ^ (places + 1) = 2 * 2 ^ places := by rw [Nat.pow_succ, Nat.mul_comm]
      _ ≤ 4 * (coefficient <<< power) := half
      _ = 4 * (coefficient * 2 ^ power) := by rw [Nat.shiftLeft_eq]
      _ < 4 * (2 ^ (coefficient.log2 + 1) * 2 ^ power) :=
        Nat.mul_lt_mul_of_pos_left
          (Nat.mul_lt_mul_of_pos_right narrow (Nat.two_pow_pos power)) (Nat.succ_pos 3)
      _ = 2 ^ (coefficient.log2 + 1 + power + 2) := by
        rw [← Nat.pow_add, Nat.pow_add 2 _ 2, Nat.mul_comm]
  have exponents := (Nat.pow_lt_pow_iff_right (by decide)).mp powers
  omega

section Reading

variable {number : Decimal}

theorem denominator_of_whole (whole : 0 ≤ number.exponent) : number.denominator = 1 := by
  have places : (-number.exponent).toNat = 0 := by omega
  rw [denominator, places]

theorem numerator_of_places {places : Nat} (exponent : number.exponent = -places) :
    number.numerator = number.coefficient := by
  rw [numerator, exponent, Int.toNat_neg_natCast]
  exact Nat.mul_one _

theorem denominator_of_places {places : Nat} (exponent : number.exponent = -places) :
    number.denominator = 10 ^ places := by
  rw [denominator, exponent, Int.neg_neg, Int.toNat_natCast]
  rfl

private theorem two_pow_le_numerator (bits : Nat) (nonzero : number.coefficient ≠ 0)
    (whole : 0 ≤ number.exponent)
    (large : (bits : Int) ≤ number.coefficient.log2 + 3 * number.exponent) :
    2 ^ bits ≤ number.numerator := by
  obtain ⟨zeros, exponent⟩ := Int.eq_ofNat_of_zero_le whole
  have wide : 2 ^ (number.coefficient.log2 + 3 * zeros) ≤ number.numerator := by
    rw [numerator, exponent, Int.toNat_natCast, Nat.pow_add]
    exact Nat.mul_le_mul (Nat.log2_self_le nonzero) (eight_pow_le zeros)
  exact Nat.le_trans (Nat.pow_le_pow_right (by decide) (by omega)) wide

/-- What the width of the coefficient shows to be too small is less than half of `2 ^ -1074`. -/
theorem four_mul_numerator_lt
    (small : (number.coefficient.log2 : Int) + 3 * number.exponent ≤ -1076) :
    4 * (number.numerator <<< 1074) < 2 * number.denominator := by
  obtain ⟨places, exponent⟩ : ∃ places : Nat, number.exponent = -places :=
    ⟨(-number.exponent).toNat, by omega⟩
  have wide : 2 ^ (3 * places) ≤ number.denominator := by
    rw [denominator_of_places exponent]
    exact eight_pow_le places
  refine Nat.lt_of_not_le fun half => ?_
  rw [numerator_of_places exponent] at half
  have bits := lt_log2_of_half_le (Nat.le_trans (Nat.mul_le_mul_left 2 wide) half)
  omega

/-- Settling by its width what is too large or too small changes nothing. -/
theorem toFloat_eq_nearest (number : Decimal) :
    number.toFloat = nearest number.numerator number.denominator := by
  have zero : nearest 0 1 = Float.ofBits (UInt64.ofNat 0) := by
    rw [nearest, nearestWord_eq_zero Nat.one_pos (by decide)]
  have positive := number.denominator_pos
  unfold toFloat
  dsimp only
  split
  next vanishes =>
    have numerator : number.numerator = 0 := by rw [numerator, vanishes, Nat.zero_mul]
    rw [zero, nearest, numerator, nearestWord_eq_zero positive (by simp)]
  · split
    next nonzero large =>
      have least := two_pow_le_numerator 1024 nonzero large.1 large.2
      rw [nearest, infinity, denominator_of_whole large.1, nearestWord_of_two_pow_le least]
    · split
      next small =>
        have units := four_mul_numerator_lt small
        rw [zero, nearest, nearestWord_eq_zero positive (Nat.le_of_lt units)]
      · rfl

/-- Every decimal that rounds to a magnitude is read as the double of that magnitude. -/
theorem toFloat_of_roundsTo {mantissa shift : Nat}
    (rounds : RoundsTo mantissa shift (number.numerator <<< 1074) number.denominator)
    (magnitude : IsMagnitude mantissa shift) :
    number.toFloat = Float.ofBits (UInt64.ofNat (shift * leadingBit + mantissa)) := by
  rw [toFloat_eq_nearest, nearest, rounds.nearestWord_eq magnitude number.denominator_pos]

end Reading

end Decimal

/-!
## The text of a double
-/

theorem shortest_roundsTo {mantissa shift : Nat} (magnitude : IsMagnitude mantissa shift) :
    RoundsTo mantissa shift ((shortest mantissa shift).numerator <<< 1074)
      (shortest mantissa shift).denominator := by
  by_cases zero : mantissa = 0
  · subst zero
    have least : shift = 0 := Decidable.byContradiction fun normal =>
      absurd (magnitude.full normal) (by decide)
    rw [least]
    exact RoundsTo.zero (by decide)
  · have inside := RoundingInterval.coarsest_contains
      (RoundingInterval.ofMantissa_contains_value shift (Nat.pos_of_ne_zero zero))
      (RoundingInterval.ofMantissa mantissa shift).powerAbove
    unfold shortest
    rw [if_neg zero]
    dsimp only
    generalize (RoundingInterval.ofMantissa mantissa shift).coarsest _ = found at inside ⊢
    obtain ⟨count, power⟩ := found
    have same := Decimal.mul_denominator_eq count power 1076
    exact roundsTo_of_contains inside (Decimal.denominator_pos _) same

/-- An unsigned double is written as a decimal, and every decimal of the same value reads as this
double. -/
theorem IsUnsigned.exists_decimal {value : Float} (unsigned : IsUnsigned value) :
    ∃ decimal : Decimal, shortestText value = decimal.text ∧
      ∀ read : Decimal, read.numerator = decimal.numerator →
        read.denominator = decimal.denominator → read.toFloat = value := by
  obtain ⟨mantissa, shift, stands, magnitude, word⟩ := unsigned.exists_magnitude
  refine ⟨shortest mantissa shift, ?_, fun read above below => ?_⟩
  · rw [shortestText, stands]
    exact String.empty_append
  · have rounds := shortest_roundsTo magnitude
    rw [← above, ← below] at rounds
    rw [Decimal.toFloat_of_roundsTo rounds magnitude, ← word]
    exact unsigned.ofBits_toNat

end Calculator
