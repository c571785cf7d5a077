import Calculator.Proofs.Number.Shortest
import Mathlib.Algebra.Order.Field.Rat
import Mathlib.Algebra.Order.Group.Abs
import Mathlib.Tactic.FieldSimp
import Mathlib.Tactic.Linarith
import Mathlib.Tactic.Positivity

/-!
# The nearest double

Rounding a quotient compares it with the doubles next to it. Here its result is compared with the
numbers of all doubles: none of them is nearer to the quotient, and one that is as near leaves the
even mantissa to the result.
-/

set_option autoImplicit false

namespace Calculator

/-!
## The number of a double
-/

/-- The number that a magnitude is. -/
def magnitude (mantissa shift : Nat) : ℚ :=
  mantissa * 2 ^ shift / 2 ^ 1074

namespace Binary64

/-- The number that a double stands for, unless it is an infinity or a non-number. -/
def number? : Binary64 → Option ℚ
  | .finite negative mantissa shift =>
      some (if negative then -magnitude mantissa shift else magnitude mantissa shift)
  | _ => none

/-- A double that stands for a number stands for a magnitude, or for the negative of one. -/
theorem exists_magnitude {value : Float} {number : ℚ}
    (stands : (ofFloat value).number? = some number) :
    ∃ mantissa shift, IsMagnitude mantissa shift ∧
      (number = magnitude mantissa shift ∨ number = -magnitude mantissa shift) := by
  cases shape : ofFloat value with
  | nan | infinite => simp [shape, number?] at stands
  | finite negative mantissa shift =>
      rw [shape, number?, Option.some.injEq] at stands
      refine ⟨mantissa, shift, isMagnitude_of_ofFloat shape, ?_⟩
      cases negative with
      | false => exact .inl stands.symm
      | true => exact .inr stands.symm

end Binary64

/-- The double nearest to a number that is not negative: of two equally near ones that of the even
mantissa, and from halfway between the largest double and the next power of two on, infinity. -/
inductive IsNearestDouble (exact : ℚ) (value : Float) : Prop where
  | infinite :
      2 ^ 1024 - 2 ^ 970 ≤ exact → Binary64.ofFloat value = .infinite false →
      IsNearestDouble exact value
  | finite {mantissa shift : Nat} :
      exact < 2 ^ 1024 - 2 ^ 970 → Binary64.ofFloat value = .finite false mantissa shift →
      (∀ other number, (Binary64.ofFloat other).number? = some number →
        |exact - magnitude mantissa shift| ≤ |exact - number|) →
      (∀ other number, (Binary64.ofFloat other).number? = some number →
        number ≠ magnitude mantissa shift →
        |exact - magnitude mantissa shift| = |exact - number| → mantissa % 2 = 0) →
      IsNearestDouble exact value

/-!
## Distances between doubles
-/

namespace IsMagnitude

variable {mantissa shift otherMantissa otherShift : Nat}

/-- A magnitude of a lesser shift is at most half as large as a full mantissa allows. -/
theorem two_mul_le (other : IsMagnitude otherMantissa otherShift) (lesser : otherShift < shift) :
    2 * (otherMantissa * 2 ^ otherShift) ≤ (2 * leadingBit - 1) * 2 ^ shift := by
  have narrow : otherMantissa ≤ 2 * leadingBit - 1 := Nat.le_sub_one_of_lt other.mantissa_lt
  have power : 2 ^ (otherShift + 1) ≤ 2 ^ shift := Nat.pow_le_pow_right (by decide) lesser
  calc 2 * (otherMantissa * 2 ^ otherShift)
      = otherMantissa * 2 ^ (otherShift + 1) := by rw [Nat.pow_succ]; ac_rfl
    _ ≤ (2 * leadingBit - 1) * 2 ^ shift := Nat.mul_le_mul narrow power

private theorem multiple_of_le (otherMantissa : Nat) (notLesser : shift ≤ otherShift) :
    ∃ count, otherMantissa * 2 ^ otherShift = count * 2 ^ shift := by
  obtain ⟨more, rfl⟩ := Nat.exists_eq_add_of_le notLesser
  exact ⟨otherMantissa * 2 ^ more, by rw [Nat.pow_add]; ac_rfl⟩

/-- The next magnitude is a unit in the last place away. -/
theorem add_le_of_lt (this : IsMagnitude mantissa shift)
    (other : IsMagnitude otherMantissa otherShift)
    (above : mantissa * 2 ^ shift < otherMantissa * 2 ^ otherShift) :
    mantissa * 2 ^ shift + 2 ^ shift ≤ otherMantissa * 2 ^ otherShift := by
  by_cases lesser : otherShift < shift
  · have bound := other.two_mul_le lesser
    have full := Nat.mul_le_mul_right (2 ^ shift) (this.full (Nat.ne_zero_of_lt lesser))
    rw [leadingBit_eq] at bound full
    omega
  · rcases multiple_of_le otherMantissa (Nat.le_of_not_lt lesser) with ⟨count, same⟩
    rw [same] at above ⊢
    rw [← Nat.succ_mul]
    exact Nat.mul_le_mul_right _ (Nat.lt_of_mul_lt_mul_right above)

/-- The magnitude before is as far away as the one after, or half as far below a power of two. -/
theorem add_gapBelow_le_of_lt (this : IsMagnitude mantissa shift)
    (other : IsMagnitude otherMantissa otherShift)
    (below : otherMantissa * 2 ^ otherShift < mantissa * 2 ^ shift) :
    2 * (otherMantissa * 2 ^ otherShift) + gapBelow mantissa shift * 2 ^ shift ≤
      2 * (mantissa * 2 ^ shift) := by
  have gap := Nat.mul_le_mul_right (2 ^ shift) (gapBelow_le mantissa shift)
  by_cases lesser : otherShift < shift
  · have bound := other.two_mul_le lesser
    have full := this.full (Nat.ne_zero_of_lt lesser)
    have leading := leadingBit_eq
    by_cases least : mantissa = leadingBit
    · rw [gapBelow, if_pos ⟨least, Nat.ne_zero_of_lt lesser⟩, least]
      rw [leading] at bound ⊢
      omega
    · have wider := Nat.mul_le_mul_right (2 ^ shift)
        (Nat.lt_of_le_of_ne full (Ne.symm least))
      rw [leading] at bound wider
      omega
  · rcases multiple_of_le otherMantissa (Nat.le_of_not_lt lesser) with ⟨count, same⟩
    rw [same] at below ⊢
    have next := Nat.mul_le_mul_right (2 ^ shift)
      (show count + 1 ≤ mantissa from Nat.lt_of_mul_lt_mul_right below)
    rw [Nat.add_mul] at next
    omega

end IsMagnitude

/-!
## Sides of the halfway points
-/

namespace RoundsTo

variable {mantissa shift units den otherMantissa otherShift : Nat}

/-- What rounds to a magnitude does not lie beyond the middle between it and a greater one. -/
theorem le_middle (rounds : RoundsTo mantissa shift units den)
    (this : IsMagnitude mantissa shift) (other : IsMagnitude otherMantissa otherShift)
    (above : mantissa * 2 ^ shift < otherMantissa * 2 ^ otherShift) :
    2 * units ≤ (mantissa * 2 ^ shift + otherMantissa * 2 ^ otherShift) * den ∧
      (mantissa % 2 = 1 →
        2 * units < (mantissa * 2 ^ shift + otherMantissa * 2 ^ otherShift) * den) := by
  have apart := Nat.mul_le_mul_right den (this.add_le_of_lt other above)
  have upper := rounds.upper
  have strict := rounds.strict
  rw [← Nat.mul_assoc mantissa] at upper strict
  rw [Nat.add_mul] at apart ⊢
  exact ⟨by omega, fun odd => by have upper := (strict odd).2; omega⟩

/-- What rounds to a magnitude does not lie before the middle between it and a smaller one. -/
theorem middle_le (rounds : RoundsTo mantissa shift units den)
    (this : IsMagnitude mantissa shift) (other : IsMagnitude otherMantissa otherShift)
    (below : otherMantissa * 2 ^ otherShift < mantissa * 2 ^ shift) :
    (mantissa * 2 ^ shift + otherMantissa * 2 ^ otherShift) * den ≤ 2 * units ∧
      (mantissa % 2 = 1 →
        (mantissa * 2 ^ shift + otherMantissa * 2 ^ otherShift) * den < 2 * units) := by
  have apart := Nat.mul_le_mul_right den (this.add_gapBelow_le_of_lt other below)
  have lower := rounds.lower
  have strict := rounds.strict
  rw [← Nat.mul_assoc mantissa, ← Nat.mul_assoc (gapBelow _ _)] at lower strict
  rw [Nat.add_mul, Nat.mul_assoc 2, Nat.mul_assoc 2] at apart
  rw [Nat.add_mul]
  exact ⟨by omega, fun odd => by have lower := (strict odd).1; omega⟩

end RoundsTo

/-!
## Comparing quotients and magnitudes
-/

section Middle

variable {exact number other : ℚ}

/-- A number that is not beyond the middle is no nearer to the other end. -/
theorem abs_sub_le_of_middle (upper : number < other → 2 * exact ≤ number + other)
    (lower : other < number → number + other ≤ 2 * exact) :
    |exact - number| ≤ |exact - other| := by
  rcases lt_trichotomy number other with above | same | below
  · have middle := upper above
    rw [abs_sub_comm exact other]
    exact (abs_sub_le_iff.mpr ⟨by linarith, by linarith⟩).trans (le_abs_self _)
  · rw [same]
  · have middle := lower below
    exact (abs_sub_le_iff.mpr ⟨by linarith, by linarith⟩).trans (le_abs_self _)

theorem abs_sub_lt_of_middle (different : other ≠ number)
    (upper : number < other → 2 * exact < number + other)
    (lower : other < number → number + other < 2 * exact) :
    |exact - number| < |exact - other| := by
  rcases lt_or_gt_of_ne different with below | above
  · have middle := lower below
    exact (abs_sub_lt_iff.mpr ⟨by linarith, by linarith⟩).trans_le (le_abs_self _)
  · have middle := upper above
    rw [abs_sub_comm exact other]
    exact (abs_sub_lt_iff.mpr ⟨by linarith, by linarith⟩).trans_le (le_abs_self _)

end Middle

section Quotients

variable {num den mantissa shift otherMantissa otherShift : Nat}

theorem magnitude_lt_iff :
    magnitude mantissa shift < magnitude otherMantissa otherShift ↔
      mantissa * 2 ^ shift < otherMantissa * 2 ^ otherShift := by
  unfold magnitude
  rw [div_lt_div_iff_of_pos_right (by positivity)]
  exact_mod_cast Iff.rfl

theorem magnitude_nonneg (mantissa shift : Nat) : 0 ≤ magnitude mantissa shift := by
  unfold magnitude
  positivity

theorem magnitude_zero : magnitude 0 0 = 0 := by
  simp [magnitude]

private theorem magnitude_pos (shift : Nat) (positive : 0 < mantissa) :
    0 < magnitude mantissa shift := by
  unfold magnitude
  positivity

private theorem magnitude_add_magnitude :
    magnitude mantissa shift + magnitude otherMantissa otherShift =
      (mantissa * 2 ^ shift + otherMantissa * 2 ^ otherShift : Nat) / 2 ^ 1074 := by
  unfold magnitude
  rw [← add_div]
  push_cast
  rfl

/-- Comparing a quotient in units of `2 ^ -1074`. -/
theorem two_mul_div_le_iff (positive : 0 < den) (sum : Nat) :
    2 * ((num : ℚ) / den) ≤ sum / 2 ^ 1074 ↔ 2 * (num <<< 1074) ≤ sum * den := by
  have denPositive : (0 : ℚ) < den := by exact_mod_cast positive
  rw [Nat.shiftLeft_eq, ← mul_div_assoc, div_le_div_iff₀ denPositive (by positivity)]
  generalize 1074 = power
  rw [← Nat.mul_assoc]
  exact_mod_cast Iff.rfl

private theorem le_two_mul_div_iff (positive : 0 < den) (sum : Nat) :
    sum / 2 ^ 1074 ≤ 2 * ((num : ℚ) / den) ↔ sum * den ≤ 2 * (num <<< 1074) := by
  have denPositive : (0 : ℚ) < den := by exact_mod_cast positive
  rw [Nat.shiftLeft_eq, ← mul_div_assoc, div_le_div_iff₀ (by positivity) denPositive]
  generalize 1074 = power
  rw [← Nat.mul_assoc]
  exact_mod_cast Iff.rfl

end Quotients

namespace RoundsTo

variable {mantissa shift num den otherMantissa otherShift : Nat} {value : Float} {number : ℚ}

private theorem le_middle_magnitude (rounds : RoundsTo mantissa shift (num <<< 1074) den)
    (this : IsMagnitude mantissa shift) (other : IsMagnitude otherMantissa otherShift)
    (positive : 0 < den) (above : magnitude mantissa shift < magnitude otherMantissa otherShift) :
    2 * ((num : ℚ) / den) ≤ magnitude mantissa shift + magnitude otherMantissa otherShift ∧
      (mantissa % 2 = 1 →
        2 * ((num : ℚ) / den) <
          magnitude mantissa shift + magnitude otherMantissa otherShift) := by
  rcases rounds.le_middle this other (magnitude_lt_iff.mp above) with ⟨upper, strict⟩
  rw [magnitude_add_magnitude]
  refine ⟨(two_mul_div_le_iff positive _).mpr upper, fun odd => ?_⟩
  exact lt_of_not_ge (mt (le_two_mul_div_iff positive _).mp (Nat.not_le_of_lt (strict odd)))

private theorem middle_magnitude_le (rounds : RoundsTo mantissa shift (num <<< 1074) den)
    (this : IsMagnitude mantissa shift) (other : IsMagnitude otherMantissa otherShift)
    (positive : 0 < den) (below : magnitude otherMantissa otherShift < magnitude mantissa shift) :
    magnitude mantissa shift + magnitude otherMantissa otherShift ≤ 2 * ((num : ℚ) / den) ∧
      (mantissa % 2 = 1 →
        magnitude mantissa shift + magnitude otherMantissa otherShift <
          2 * ((num : ℚ) / den)) := by
  rcases rounds.middle_le this other (magnitude_lt_iff.mp below) with ⟨lower, strict⟩
  rw [magnitude_add_magnitude]
  refine ⟨(le_two_mul_div_iff positive _).mpr lower, fun odd => ?_⟩
  exact lt_of_not_ge (mt (two_mul_div_le_iff positive _).mp (Nat.not_le_of_lt (strict odd)))

private theorem le_middle_double (rounds : RoundsTo mantissa shift (num <<< 1074) den)
    (this : IsMagnitude mantissa shift) (positive : 0 < den)
    (stands : (Binary64.ofFloat value).number? = some number)
    (above : magnitude mantissa shift < number) :
    2 * ((num : ℚ) / den) ≤ magnitude mantissa shift + number ∧
      (mantissa % 2 = 1 → 2 * ((num : ℚ) / den) < magnitude mantissa shift + number) := by
  rcases Binary64.exists_magnitude stands with ⟨otherMantissa, otherShift, other, rfl | rfl⟩
  · exact rounds.le_middle_magnitude this other positive above
  · have least := magnitude_nonneg mantissa shift
    have otherLeast := magnitude_nonneg otherMantissa otherShift
    linarith

private theorem middle_double_le (rounds : RoundsTo mantissa shift (num <<< 1074) den)
    (this : IsMagnitude mantissa shift) (positive : 0 < den)
    (stands : (Binary64.ofFloat value).number? = some number)
    (below : number < magnitude mantissa shift) :
    magnitude mantissa shift + number ≤ 2 * ((num : ℚ) / den) ∧
      (mantissa % 2 = 1 → magnitude mantissa shift + number < 2 * ((num : ℚ) / den)) := by
  rcases Binary64.exists_magnitude stands with ⟨otherMantissa, otherShift, other, rfl | rfl⟩
  · exact rounds.middle_magnitude_le this other positive below
  · have least := magnitude_nonneg otherMantissa otherShift
    rcases (magnitude_nonneg mantissa shift).eq_or_lt with zero | above
    · have quotient : (0 : ℚ) ≤ num / den := by positivity
      refine ⟨by linarith, fun odd => absurd zero ?_⟩
      exact ne_of_lt (magnitude_pos shift (by omega))
    · rw [← magnitude_zero] at above
      rcases rounds.middle_magnitude_le this .zero positive above with ⟨lower, strict⟩
      rw [magnitude_zero, add_zero] at lower strict
      exact ⟨by linarith, fun odd => by have lower := strict odd; linarith⟩

end RoundsTo

/-!
## The nearest double to a quotient
-/

/-- The middle between the largest double and the next power of two. -/
theorem last_middle_eq :
    (2 ^ 1024 - 2 ^ 970 : ℚ) = ((2 ^ 54 - 1) * 2 ^ 2045 : Nat) / 2 ^ 1074 / 2 := by
  have ones : ((2 ^ 54 - 1 : Nat) : ℚ) = 2 ^ 54 - 1 := by norm_num
  have unit : (2 ^ 1074 : ℚ) ≠ 0 := by positivity
  have largest : (2 ^ 2045 : ℚ) = 2 ^ 970 * (2 ^ 1074 * 2) := by rw [← pow_succ, ← pow_add]
  have next : (2 ^ 1024 : ℚ) = 2 ^ 54 * 2 ^ 970 := by rw [← pow_add]
  rw [Nat.cast_mul, Nat.cast_pow, ones, Nat.cast_ofNat, largest, next]
  generalize (2 ^ 970 : ℚ) = power
  generalize (2 ^ 1074 : ℚ) = unit at *
  field_simp

/-- Where doubles end, in units of `2 ^ -1074`. -/
theorem le_div_iff_units {num den : Nat} (positive : 0 < den) :
    (2 ^ 1024 - 2 ^ 970 : ℚ) ≤ num / den ↔
      (2 ^ 54 - 1) * (2 ^ 2045 * den) ≤ 2 * (num <<< 1074) := by
  rw [last_middle_eq, div_le_iff₀ (by norm_num), mul_comm _ (2 : ℚ), le_two_mul_div_iff positive,
    Nat.mul_assoc]

theorem nearest_isNearestDouble (num : Nat) {den : Nat} (positive : 0 < den) :
    IsNearestDouble (num / den) (nearest num den) := by
  by_cases large : (2 ^ 54 - 1) * (2 ^ 2045 * den) ≤ 2 * (num <<< 1074)
  · refine .infinite ((le_div_iff_units positive).mpr large) ?_
    rw [nearest, nearestWord_eq_infinityWord positive large]
    decide +kernel
  · rcases exists_roundsTo positive (Nat.lt_of_not_le large) with
      ⟨mantissa, shift, this, rounds⟩
    have word := rounds.nearestWord_eq this positive
    have stands : Binary64.ofFloat (nearest num den) = .finite false mantissa shift := by
      refine Binary64.ofFloat_of_word this ?_
      rw [nearest, word, toBits_ofBits this.word_lt]
    refine .finite (lt_of_not_ge (mt (le_div_iff_units positive).mp large)) stands ?_ ?_
    · intro other number among
      exact abs_sub_le_of_middle
        (fun above => (rounds.le_middle_double this positive among above).1)
        fun below => (rounds.middle_double_le this positive among below).1
    · intro other number among different tie
      refine Nat.mod_two_ne_one.mp fun odd => ne_of_lt ?_ tie
      exact abs_sub_lt_of_middle different
        (fun above => (rounds.le_middle_double this positive among above).2 odd)
        fun below => (rounds.middle_double_le this positive among below).2 odd

namespace Decimal

/-- The number that a decimal is. -/
def value (number : Decimal) : ℚ :=
  number.coefficient * 10 ^ number.exponent

theorem value_eq (number : Decimal) : number.value = number.numerator / number.denominator := by
  obtain ⟨coefficient, exponent⟩ := number
  cases exponent with
  | ofNat zeros => simp [value, numerator, denominator]
  | negSucc last => simp [value, numerator, denominator, zpow_negSucc, div_eq_mul_inv]

/-- Decimals are read as the doubles nearest to them. -/
theorem toFloat_isNearestDouble (number : Decimal) :
    IsNearestDouble number.value number.toFloat := by
  rw [number.toFloat_eq_nearest, number.value_eq]
  exact nearest_isNearestDouble number.numerator number.denominator_pos

end Decimal

end Calculator
