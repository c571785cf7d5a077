import Calculator.Expr
import Calculator.Proofs.Number.Fewest
import Calculator.Proofs.Number.Literal
import Calculator.Proofs.Text.Lines

/-!
# The texts of numbers

The text of a finite double is its sign and a numeral without an exponent and without superfluous
zeros. Its value rounds to the double, and no decimal with fewer significant digits does.
-/

set_option autoImplicit false

namespace Calculator

/-!
## Significant digits
-/

/-- The digits of a number without the zeros in front and at the end. -/
def significant (digits : List Char) : List Char :=
  Text.trimRight (· == '0') (digits.dropWhile (· == '0'))

private theorem digit_pos {c : Char} (digit : c.isDigit = true) (nonzero : (c == '0') = false) :
    0 < c.toNat - '0'.toNat := by
  have least : 48 ≤ c.toNat := (of_decide_eq_true (Bool.and_eq_true_iff.mp digit).1)
  have other : c.toNat ≠ '0'.toNat := fun same => by
    rw [Char.toNat_inj.mp same] at nonzero
    cases nonzero
  exact Nat.sub_pos_of_lt (Nat.lt_of_le_of_ne least other.symm)

private theorem ofDigitChars_dropWhile_zero (digits : List Char) :
    Nat.ofDigitChars 10 (digits.dropWhile (· == '0')) 0 = Nat.ofDigitChars 10 digits 0 := by
  induction digits with
  | nil => rfl
  | cons c digits ih =>
      rw [List.dropWhile_cons]
      split
      next zero =>
        rw [ih, eq_of_beq zero]
        rfl
      next => rfl

theorem ten_pow_le_ofDigitChars {first : Char} {digits : List Char}
    (digit : first.isDigit = true) (nonzero : (first == '0') = false) :
    10 ^ digits.length ≤ Nat.ofDigitChars 10 (first :: digits) 0 := by
  rw [Nat.ofDigitChars_cons, Nat.ofDigitChars_eq_ofDigitChars_zero]
  have positive := digit_pos digit nonzero
  exact Nat.le_add_right_of_le (Nat.le_mul_of_pos_right _ (by omega))

theorem ofDigitChars_mod_ten_ne {digits : List Char} (nonempty : digits ≠ [])
    (inside : ∀ c ∈ digits, c.isDigit = true)
    (last : ∀ c ∈ digits.getLast?, (c == '0') = false) :
    Nat.ofDigitChars 10 digits 0 % 10 ≠ 0 := by
  have digit := inside _ (List.getLast_mem nonempty)
  have positive := digit_pos digit (last _ (List.getLast?_eq_some_getLast nonempty))
  have most := digit_le digit
  rw [← List.dropLast_append_getLast nonempty, Nat.ofDigitChars_append, Nat.ofDigitChars_cons]
  show (10 * _ + (_ - '0'.toNat)) % 10 ≠ 0
  omega

/-- Of all ways to write a number as a multiple of a power of ten, those that do not end with a zero
have the least multiple. -/
theorem le_of_mul_ten_pow_eq {count coefficient zeros more : Nat} (nonzero : count % 10 ≠ 0)
    (same : count * 10 ^ zeros = coefficient * 10 ^ more) : count ≤ coefficient := by
  refine Nat.le_of_not_lt fun less => nonzero ?_
  have further : zeros < more := by
    refine Nat.lt_of_not_le fun fewer => absurd same (Nat.ne_of_gt ?_)
    have powers : 10 ^ more ≤ 10 ^ zeros := Nat.pow_le_pow_right (by decide) fewer
    exact Nat.mul_lt_mul_of_lt_of_le less powers (Nat.pow_pos (Nat.succ_pos 9))
  obtain ⟨left, rfl⟩ := Nat.exists_eq_add_of_lt further
  rw [Nat.pow_succ, Nat.pow_add, Nat.mul_assoc (10 ^ zeros), Nat.mul_left_comm,
    Nat.mul_comm count] at same
  rw [Nat.mul_left_cancel (Nat.pow_pos (Nat.succ_pos 9)) same, ← Nat.mul_assoc]
  exact Nat.mul_mod_left _ 10

/-- What is left of digits between zeros in front and zeros at the end. -/
structure IsSignificant (digits kept : List Char) : Prop where
  subset : kept ⊆ digits
  first : ∀ c ∈ kept.head?, (c == '0') = false
  last : ∀ c ∈ kept.getLast?, (c == '0') = false
  value : ∃ zeros, Nat.ofDigitChars 10 kept 0 * 10 ^ zeros = Nat.ofDigitChars 10 digits 0

theorem significant_isSignificant (digits : List Char) :
    IsSignificant digits (significant digits) := by
  have begins := List.head?_dropWhile_not (· == '0') digits
  have behind := (List.dropWhile_suffix (l := digits) (· == '0')).subset
  have same := ofDigitChars_dropWhile_zero digits
  unfold significant
  generalize digits.dropWhile (· == '0') = rest at begins behind same ⊢
  obtain ⟨⟨back, parts, zero⟩, stops⟩ := Text.trimRight_trimmed (· == '0') rest
  generalize Text.trimRight (· == '0') rest = kept at parts stops ⊢
  have zeros : back = List.replicate back.length '0' :=
    List.eq_replicate_of_mem fun c member => eq_of_beq (zero c member)
  rw [parts] at begins behind same
  refine ⟨fun c member => behind (List.mem_append_left back member), ?_, stops, back.length, ?_⟩
  · intro c head
    cases kept with
    | nil => cases head
    | cons first kept =>
        cases head
        exact begins
  · rw [← same, zeros, Nat.ofDigitChars_append, Nat.ofDigitChars_replicate_zero,
      List.length_replicate, Nat.mul_comm]

/-- If a number is a multiple of a power of ten, then it has no more significant digits than the
factor has. -/
theorem ten_pow_le_of_lt_length_significant {digits : List Char} {coefficient zeros less : Nat}
    (inside : ∀ c ∈ digits, c.isDigit = true)
    (value : Nat.ofDigitChars 10 digits 0 = coefficient * 10 ^ zeros)
    (fewer : less < (significant digits).length) : 10 ^ less ≤ coefficient := by
  obtain ⟨subset, begins, ends, trailing, same⟩ := significant_isSignificant digits
  generalize significant digits = kept at subset begins ends same fewer
  cases kept with
  | nil => cases fewer
  | cons first kept =>
      have core : ∀ c ∈ first :: kept, c.isDigit = true :=
        fun c member => inside c (subset member)
      have nonzero := ofDigitChars_mod_ten_ne (List.cons_ne_nil first kept) core ends
      calc 10 ^ less ≤ 10 ^ kept.length :=
            Nat.pow_le_pow_right (by decide) (Nat.le_of_lt_succ fewer)
        _ ≤ Nat.ofDigitChars 10 (first :: kept) 0 :=
            ten_pow_le_ofDigitChars (core first List.mem_cons_self) (begins first rfl)
        _ ≤ coefficient := le_of_mul_ten_pow_eq nonzero (same.trans value)

private theorem length_significant_le {digits : List Char} {coefficient zeros count : Nat}
    (inside : ∀ c ∈ digits, c.isDigit = true)
    (value : Nat.ofDigitChars 10 digits 0 = coefficient * 10 ^ zeros)
    (few : coefficient < 10 ^ count) : (significant digits).length ≤ count :=
  Nat.le_of_not_lt fun fewer =>
    absurd (ten_pow_le_of_lt_length_significant inside value fewer) (Nat.not_le_of_lt few)

/-!
## Numerals without superfluous zeros
-/

/-- A numeral without an exponent, of a whole part without superfluous zeros and, if any, a fraction
that does not end with a zero. -/
structure Numeral.IsReduced (numeral : Numeral) : Prop where
  whole : ∃ count, WritesWhole numeral.whole count
  fraction : ∀ digits ∈ numeral.fraction,
    digits ≠ [] ∧ (∀ c ∈ digits, c.isDigit = true) ∧ digits.getLast? ≠ some '0'
  exponent : numeral.exponent = none

theorem Numeral.number_eq_value {numeral : Numeral} (plain : numeral.exponent = none) :
    numeral.number = numeral.decimal.value := by
  rw [number_eq, decimal, plain]
  rfl

namespace Decimal

/-- If a decimal with places does not end with a zero, neither does its numeral. -/
theorem isReduced_numeral {number : Decimal}
    (nonzero : number.exponent < 0 → number.coefficient % 10 ≠ 0) :
    number.numeral.IsReduced := by
  have plain := number.isPlain_numeral
  obtain ⟨coefficient, exponent⟩ := number
  cases exponent with
  | ofNat zeros => exact ⟨⟨_, toDigits_writesWhole _⟩, nofun, rfl⟩
  | negSucc last =>
      refine ⟨⟨_, toDigits_writesWhole _⟩, ?_, rfl⟩
      rintro digits ⟨⟩
      have value := ofDigitChars_places coefficient last 0
      refine ⟨fun empty => plain.fraction_ne_nil (congrArg some empty), plain.fraction _ rfl, ?_⟩
      intro zero
      obtain ⟨front, shape⟩ := List.getLast?_eq_some_iff.mp zero
      rw [shape, Nat.ofDigitChars_append, Nat.mul_zero, Nat.zero_add] at value
      have tens : 10 ∣ Nat.pow 10 (last + 1) := dvd_pow_self 10 (Nat.succ_ne_zero last)
      have divides : coefficient % Nat.pow 10 (last + 1) % 10 = 0 := by
        rw [← value]
        exact Nat.mul_mod_right 10 _
      rw [Nat.mod_mod_of_dvd _ tens] at divides
      exact nonzero (Int.negSucc_lt_zero last) divides

theorem number_numeral (number : Decimal) : number.numeral.number = number.value := by
  obtain ⟨above, below⟩ := number.numerator_numeral
  rw [Numeral.number_eq_value number.isPlain_numeral.exponent, value_eq, value_eq, above, below]

theorem ofDigitChars_numeral (number : Decimal) :
    Nat.ofDigitChars 10 (number.numeral.whole ++ number.numeral.places) 0 =
      number.coefficient * 10 ^ number.exponent.toNat := by
  have above := number.numerator_numeral.1
  have exponent := number.isPlain_numeral.exponent
  rw [numerator, Numeral.decimal, exponent] at above
  have power : ((0 : Int) - (number.numeral.fraction.getD []).length).toNat = 0 := by omega
  dsimp only [Option.map_none, Option.getD_none] at above
  rw [power] at above
  exact (Nat.mul_one _).symm.trans above

end Decimal

/-!
## Decimals that round to a double
-/

/-- The numbers of at most so many significant digits. -/
def HasDigits (exact : ℚ) (count : Nat) : Prop :=
  ∃ coefficient exponent : Int, |coefficient| < 10 ^ count ∧ exact = coefficient * 10 ^ exponent

theorem HasDigits.exists_abs {exact : ℚ} {count : Nat} (digits : HasDigits exact count) :
    ∃ (coefficient : Nat) (exponent : Int), coefficient < 10 ^ count ∧
      |exact| = coefficient * 10 ^ exponent := by
  obtain ⟨coefficient, exponent, few, rfl⟩ := digits
  refine ⟨coefficient.natAbs, exponent, ?_, ?_⟩
  · rw [Int.abs_eq_natAbs] at few
    exact_mod_cast few
  · rw [abs_mul, abs_of_nonneg (show (0 : ℚ) ≤ 10 ^ exponent by positivity), Nat.cast_natAbs,
      Int.cast_abs]

/-- The finite double is nearest to a number: of two equally near ones that of the even mantissa. A
number from halfway between the largest double and the next power of two on rounds to infinity.
Zeros of either sign are the same number. -/
inductive RoundsToDouble (exact : ℚ) (value : Float) : Prop where
  | intro {negative : Bool} {mantissa shift : Nat} :
      |exact| < 2 ^ 1024 - 2 ^ 970 →
      Binary64.ofFloat value = .finite negative mantissa shift →
      IsNearest exact
        (if negative then -magnitude mantissa shift else magnitude mantissa shift) mantissa →
      RoundsToDouble exact value

section Rounding

variable {exact : ℚ} {mantissa shift : Nat}

/-- A negative number whose nearest double is not negative is nearest to zero. -/
theorem IsNearest.inInterval_abs (nearest : IsNearest exact (magnitude mantissa shift) mantissa)
    (this : IsMagnitude mantissa shift) (small : |exact| < 2 ^ 1024 - 2 ^ 970) :
    InInterval |exact| mantissa shift := by
  rcases le_or_gt 0 exact with nonneg | negative
  · rw [abs_of_nonneg nonneg] at small ⊢
    exact nearest.inInterval this nonneg small
  · rw [abs_of_neg negative] at small ⊢
    obtain ⟨zero, stands⟩ := IsMagnitude.zero.exists_double
    have distance := nearest.le zero _ stands
    have least := magnitude_nonneg mantissa shift
    rw [magnitude_zero, sub_zero, abs_of_neg negative, abs_of_neg (by linarith)] at distance
    have mirrored : -magnitude mantissa shift = magnitude mantissa shift := by linarith
    have opposite := nearest.neg
    rw [mirrored] at opposite
    exact opposite.inInterval this (by linarith) small

theorem RoundsToDouble.inInterval {value : Float} {negative : Bool}
    (rounds : RoundsToDouble exact value)
    (stands : Binary64.ofFloat value = .finite negative mantissa shift) :
    InInterval |exact| mantissa shift := by
  obtain ⟨small, shape, nearest⟩ := rounds
  rw [stands] at shape
  cases shape
  have this := Binary64.isMagnitude_of_ofFloat stands
  cases negative with
  | false => exact nearest.inInterval_abs this small
  | true =>
      have opposite := nearest.neg
      rw [if_pos rfl, neg_neg] at opposite
      rw [← abs_neg] at small ⊢
      exact opposite.inInterval_abs this small

end Rounding

/-- The number of significant digits of the shortest decimal is the least of those that round to the
double. -/
theorem length_significant_shortest_le {mantissa shift count : Nat} {exact : ℚ}
    (this : IsMagnitude mantissa shift) (inside : InInterval |exact| mantissa shift)
    (digits : HasDigits exact count) :
    (significant ((shortest mantissa shift).numeral.whole ++
      (shortest mantissa shift).numeral.places)).length ≤ count := by
  obtain ⟨coefficient, exponent, few, absolute⟩ := digits.exists_abs
  rw [absolute] at inside
  exact length_significant_le (Decimal.isPlain_numeral _).isProper.isDigit_of_mem
    (Decimal.ofDigitChars_numeral _) (shortest_coefficient_lt this few inside)

theorem isReduced_numeral_shortest {mantissa shift : Nat} (this : IsMagnitude mantissa shift) :
    (shortest mantissa shift).numeral.IsReduced := by
  refine Decimal.isReduced_numeral fun places => ?_
  rcases mantissa.eq_zero_or_pos with rfl | positive
  · cases places
  · exact shortest_coefficient_mod_ten this positive

/-- The text of a finite double, as a token and in a tree, has a minus sign if and only if the sign
of the double is set, and a numeral without superfluous zeros. Its value rounds to the double, and
no decimal with fewer significant digits does. -/
theorem number_text_is_shortest {value : Float} (finite : value.isFinite = true) :
    ∃ numeral : Numeral, numeral.IsReduced ∧
      (Token.number value).text.toList =
        (if value.toBits >>> 63 = 1 then ['-'] else []) ++ numeral.spelling ∧
      (Expr.number value).text = (Token.number value).text ∧
      RoundsToDouble (if value.toBits >>> 63 = 1 then -numeral.number else numeral.number) value ∧
      ∀ exact count, HasDigits exact count → RoundsToDouble exact value →
        (significant (numeral.whole ++ numeral.places)).length ≤ count := by
  obtain ⟨mantissa, shift, stands⟩ := Binary64.exists_finite finite
  have this := Binary64.isMagnitude_of_ofFloat stands
  obtain ⟨small, nearest⟩ := shortest_isNearest this
  have nonneg := (shortest mantissa shift).value_nonneg
  refine ⟨(shortest mantissa shift).numeral, isReduced_numeral_shortest this, ?_, rfl, ?_, ?_⟩
  · show (shortestText value).toList = _
    rw [shortestText, stands, Binary64.text, String.toList_append, Decimal.toList_text]
    by_cases negative : value.toBits >>> 63 = 1
    · simp [negative]
    · simp [negative]
  · rw [Decimal.number_numeral]
    refine .intro ?_ stands ?_
    · split
      · rw [abs_neg, abs_of_nonneg nonneg]
        exact small
      · rw [abs_of_nonneg nonneg]
        exact small
    · by_cases negative : value.toBits >>> 63 = 1
      · rw [if_pos negative, if_pos (decide_eq_true negative)]
        exact nearest.neg
      · rw [if_neg negative, if_neg (by simp [negative])]
        exact nearest
  · intro exact count digits rounds
    exact length_significant_shortest_le this (rounds.inInterval stands) digits

/-- One digit tells the least positive double apart, at the end of more than three hundred. -/
theorem number_text_is_shortest_least :
    (Float.ofBits 1).isFinite = true ∧
      ∃ numeral : Numeral, numeral.IsReduced ∧
        (Token.number (Float.ofBits 1)).text.toList =
          (if (Float.ofBits 1).toBits >>> 63 = 1 then ['-'] else []) ++ numeral.spelling ∧
        (Expr.number (Float.ofBits 1)).text = (Token.number (Float.ofBits 1)).text ∧
        RoundsToDouble
          (if (Float.ofBits 1).toBits >>> 63 = 1 then -numeral.number else numeral.number)
          (Float.ofBits 1) ∧
        ∀ exact count, HasDigits exact count → RoundsToDouble exact (Float.ofBits 1) →
          (significant (numeral.whole ++ numeral.places)).length ≤ count := by
  have finite : (Float.ofBits 1).isFinite = true := by decide +kernel
  exact ⟨finite, number_text_is_shortest finite⟩

end Calculator
