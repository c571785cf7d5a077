import Calculator.Proofs.Number.Closest
import Calculator.Proofs.Printing.Numbers

/-!
# Numerals that are printed as they are spelled

A double does not tell from which numeral it was read, so at most one of them can be its text. That
one has no exponent and no superfluous zeros, no decimal with fewer digits rounds to the double, and
none with as few is closer to it.
-/

set_option autoImplicit false

namespace Calculator

/-!
## Digits that write a number
-/

private theorem eq_of_digit_eq {c other : Char} (digit : c.isDigit = true)
    (otherDigit : other.isDigit = true)
    (same : c.toNat - '0'.toNat = other.toNat - '0'.toNat) : c = other := by
  have least : '0'.toNat ≤ c.toNat := (of_decide_eq_true (Bool.and_eq_true_iff.mp digit).1)
  have otherLeast : '0'.toNat ≤ other.toNat :=
    (of_decide_eq_true (Bool.and_eq_true_iff.mp otherDigit).1)
  exact Char.toNat_inj.mp (by omega)

/-- As many digits that make the same number are the same digits. -/
theorem eq_of_ofDigitChars_eq {digits others : List Char}
    (inside : ∀ c ∈ digits, c.isDigit = true) (otherInside : ∀ c ∈ others, c.isDigit = true)
    (length : digits.length = others.length)
    (same : Nat.ofDigitChars 10 digits 0 = Nat.ofDigitChars 10 others 0) : digits = others := by
  induction digits using List.reverseRecOn generalizing others with
  | nil => exact (List.length_eq_zero_iff.mp length.symm).symm
  | append_singleton front last ih =>
      rcases List.eq_nil_or_concat' others with rfl | ⟨otherFront, otherLast, rfl⟩
      · simp at length
      have digit := inside last (by simp)
      have otherDigit := otherInside otherLast (by simp)
      have most := digit_le digit
      have otherMost := digit_le otherDigit
      simp only [Nat.ofDigitChars_append, Nat.ofDigitChars_cons, Nat.ofDigitChars_nil] at same
      simp only [List.length_append, List.length_singleton] at length
      rw [eq_of_digit_eq digit otherDigit (by omega),
        ih (fun c member => inside c (List.mem_append_left _ member))
          (fun c member => otherInside c (List.mem_append_left _ member)) (by omega) (by omega)]

private theorem ofDigitChars_append_inj {front back otherFront otherBack : List Char}
    (inside : ∀ c ∈ back, c.isDigit = true) (otherInside : ∀ c ∈ otherBack, c.isDigit = true)
    (length : back.length = otherBack.length)
    (same : Nat.ofDigitChars 10 (front ++ back) 0 = Nat.ofDigitChars 10 (otherFront ++ otherBack) 0) :
    Nat.ofDigitChars 10 front 0 = Nat.ofDigitChars 10 otherFront 0 ∧
      Nat.ofDigitChars 10 back 0 = Nat.ofDigitChars 10 otherBack 0 := by
  have small := ofDigitChars_lt inside 0
  have otherSmall := ofDigitChars_lt otherInside 0
  rw [Nat.ofDigitChars_append, Nat.ofDigitChars_append, Nat.ofDigitChars_eq_ofDigitChars_zero,
    @Nat.ofDigitChars_eq_ofDigitChars_zero otherBack, ← length] at same
  rw [Nat.zero_add, Nat.one_mul] at small otherSmall
  rw [← length] at otherSmall
  have positive : 0 < 10 ^ back.length := Nat.pow_pos (Nat.succ_pos 9)
  rw [Nat.add_comm] at same
  obtain ⟨quotient, remainder⟩ := (Nat.div_mod_unique positive).mpr ⟨same, small⟩
  obtain ⟨otherQuotient, otherRemainder⟩ :=
    (Nat.div_mod_unique positive).mpr ⟨Nat.add_comm (Nat.ofDigitChars 10 otherBack 0) _, otherSmall⟩
  exact ⟨quotient.symm.trans otherQuotient, remainder.symm.trans otherRemainder⟩

namespace WritesWhole

variable {digits others : List Char} {whole : Nat}

private theorem length_le (writes : WritesWhole digits whole) (other : WritesWhole others whole) :
    digits.length ≤ others.length := by
  obtain ⟨inside, nonempty, begins, value⟩ := writes
  have positive := List.length_pos_iff.mpr other.nonempty
  cases digits with
  | nil => exact absurd rfl nonempty
  | cons first digits =>
      cases zero : first == '0' with
      | true =>
          rw [eq_of_beq zero] at begins ⊢
          rw [begins rfl]
          exact positive
      | false =>
          have wide : 10 ^ digits.length ≤ Nat.ofDigitChars 10 (first :: digits) 0 :=
            ten_pow_le_ofDigitChars (inside first List.mem_cons_self) zero
          have narrow := ofDigitChars_lt other.inside 0
          rw [value] at wide
          rw [other.value, Nat.zero_add, Nat.one_mul] at narrow
          exact (Nat.pow_lt_pow_iff_right (by decide)).mp (wide.trans_lt narrow)

theorem unique (writes : WritesWhole digits whole) (other : WritesWhole others whole) :
    digits = others :=
  eq_of_ofDigitChars_eq writes.inside other.inside
    (le_antisymm (writes.length_le other) (other.length_le writes))
    (writes.value.trans other.value.symm)

end WritesWhole

/-!
## Reduced numerals differ in value
-/

namespace Numeral

variable {numeral other : Numeral}

/-- Without an exponent, a numeral is a whole number of units of its last place. -/
theorem number_eq_div (plain : numeral.exponent = none) :
    numeral.number = Nat.ofDigitChars 10 (numeral.whole ++ numeral.places) 0 /
      10 ^ numeral.places.length := by
  rw [number_eq, plain, decimalWith, Decimal.value]
  show _ * (10 : ℚ) ^ ((0 : Int) - _) = _
  rw [zero_sub, zpow_neg, zpow_natCast, div_eq_mul_inv]

namespace IsReduced

theorem isPlain (reduced : numeral.IsReduced) : numeral.IsPlain := by
  obtain ⟨⟨_, writes⟩, fraction, exponent⟩ := reduced
  exact ⟨writes.nonempty, writes.inside, fun empty => (fraction [] empty).1 rfl,
    fun digits present => (fraction digits present).2.1, exponent⟩

private theorem fraction_eq (reduced : numeral.IsReduced) :
    numeral.fraction = if numeral.places = [] then none else some numeral.places := by
  cases shape : numeral.fraction with
  | none => rw [places, shape, Option.getD_none, if_pos rfl]
  | some digits =>
      rw [places, shape, Option.getD_some, if_neg (reduced.fraction digits shape).1]

private theorem ofDigitChars_mod_ten_ne (reduced : numeral.IsReduced)
    (nonempty : numeral.places ≠ []) :
    Nat.ofDigitChars 10 (numeral.whole ++ numeral.places) 0 % 10 ≠ 0 := by
  have last :=
    (reduced.fraction numeral.places (by rw [reduced.fraction_eq, if_neg nonempty]; rfl)).2.2
  refine Calculator.ofDigitChars_mod_ten_ne (List.append_ne_nil_of_right_ne_nil _ nonempty)
    reduced.isPlain.isProper.isDigit_of_mem fun c ends => ?_
  rw [List.getLast?_append_of_ne_nil _ nonempty] at ends
  exact beq_eq_false_iff_ne.mpr fun zero => last (zero ▸ ends)

/-- A reduced numeral has no more places than any other of the same value. -/
theorem length_places_le (reduced : numeral.IsReduced) (otherReduced : other.IsReduced)
    (same : numeral.number = other.number) : other.places.length ≤ numeral.places.length := by
  refine Nat.le_of_not_lt fun fewer => ?_
  have nonempty : other.places ≠ [] := List.length_pos_iff.mp (by omega)
  obtain ⟨more, longer⟩ := Nat.exists_eq_add_of_lt fewer
  rw [number_eq_div reduced.exponent, number_eq_div otherReduced.exponent, longer, Nat.add_assoc,
    pow_add, ← div_div, div_right_comm, div_left_inj' (by positivity),
    eq_div_iff (by positivity)] at same
  have shifted : Nat.ofDigitChars 10 (numeral.whole ++ numeral.places) 0 * 10 ^ (more + 1) =
      Nat.ofDigitChars 10 (other.whole ++ other.places) 0 := by exact_mod_cast same
  refine otherReduced.ofDigitChars_mod_ten_ne nonempty ?_
  rw [← shifted, Nat.pow_succ, ← Nat.mul_assoc]
  exact Nat.mul_mod_left _ 10

/-- No two reduced numerals have the same value. -/
theorem eq_of_number_eq (reduced : numeral.IsReduced) (otherReduced : other.IsReduced)
    (same : numeral.number = other.number) : numeral = other := by
  have length : numeral.places.length = other.places.length :=
    le_antisymm (otherReduced.length_places_le reduced same.symm)
      (reduced.length_places_le otherReduced same)
  have fractions := reduced.fraction_eq
  have otherFractions := otherReduced.fraction_eq
  obtain ⟨⟨count, writes⟩, -, plain⟩ := id reduced
  obtain ⟨⟨otherCount, otherWrites⟩, -, otherPlain⟩ := id otherReduced
  rw [number_eq_div plain, number_eq_div otherPlain, length, div_left_inj' (by positivity),
    Nat.cast_inj] at same
  have inside := fun c member => reduced.isPlain.isProper.isDigit_of_mem c
    (List.mem_append_right numeral.whole member)
  have otherInside := fun c member => otherReduced.isPlain.isProper.isDigit_of_mem c
    (List.mem_append_right other.whole member)
  obtain ⟨wholes, places⟩ := ofDigitChars_append_inj inside otherInside length same
  rw [writes.value, otherWrites.value] at wholes
  subst wholes
  rw [eq_of_ofDigitChars_eq inside otherInside length places, ← otherFractions] at fractions
  obtain ⟨_, _, _⟩ := numeral
  obtain ⟨_, _, _⟩ := other
  rw [mk.injEq]
  exact ⟨writes.unique otherWrites, fractions, plain.trans otherPlain.symm⟩

end IsReduced

end Numeral

/-!
## Numerals that are the texts of their doubles
-/

/-- How many significant digits a numeral has. -/
def Numeral.precision (numeral : Numeral) : Nat :=
  (significant (numeral.whole ++ numeral.places)).length

/-- A reduced numeral of a finite double, to which no decimal with fewer significant digits rounds
and none with as few is closer. -/
structure Numeral.IsShortest (numeral : Numeral) : Prop where
  reduced : numeral.IsReduced
  finite : numeral.number < 2 ^ 1024 - 2 ^ 970
  fewest : ∀ exact count, HasDigits exact count → RoundsToDouble exact numeral.toFloat →
    numeral.precision ≤ count
  closest : ∀ double exact, (Binary64.ofFloat numeral.toFloat).number? = some double →
    HasDigits exact numeral.precision → RoundsToDouble exact numeral.toFloat →
    IsCloser double numeral.number exact

theorem IsNearestDouble.roundsToDouble {exact : ℚ} {value : Float}
    (nearest : IsNearestDouble exact value) (nonneg : 0 ≤ exact)
    (small : exact < 2 ^ 1024 - 2 ^ 970) : RoundsToDouble exact value := by
  cases nearest with
  | infinite large => exact absurd small large.not_gt
  | finite _ stands le even => exact .intro (by rwa [abs_of_nonneg nonneg]) stands ⟨le, even⟩

namespace Numeral

variable {numeral : Numeral}

private theorem number_nonneg (numeral : Numeral) : 0 ≤ numeral.number := by
  rw [number_eq]
  exact Decimal.value_nonneg _

private theorem hasDigits_number (proper : numeral.IsProper) (plain : numeral.exponent = none) :
    HasDigits numeral.number numeral.precision := by
  obtain ⟨subset, -, -, zeros, same⟩ :=
    significant_isSignificant (numeral.whole ++ numeral.places)
  unfold precision
  generalize significant (numeral.whole ++ numeral.places) = kept at subset same ⊢
  have few := ofDigitChars_lt (fun c member => proper.isDigit_of_mem c (subset member)) 0
  have scaled := mul_zpow_sub_eq_div (Nat.ofDigitChars 10 kept 0) zeros numeral.places.length
  rw [Nat.zero_add, Nat.one_mul] at few
  rw [same, ← number_eq_div plain] at scaled
  refine ⟨Nat.ofDigitChars 10 kept 0, _, ?_, scaled.symm⟩
  rw [Nat.abs_cast]
  exact_mod_cast few

end Numeral

section Shortest

variable {numeral : Numeral} {mantissa shift : Nat} {exact : ℚ}

/-- No decimal with as few digits as the one that is written is closer to the double. -/
theorem shortest_number_isCloser (this : IsMagnitude mantissa shift)
    (digits : HasDigits exact (shortest mantissa shift).numeral.precision)
    (inside : InInterval |exact| mantissa shift) :
    IsCloser (magnitude mantissa shift) (shortest mantissa shift).numeral.number exact := by
  obtain ⟨coefficient, exponent, few, absolute⟩ := digits.exists_abs
  have isDigit := (Decimal.isPlain_numeral (shortest mantissa shift)).isProper.isDigit_of_mem
  refine .of_abs (magnitude_nonneg mantissa shift) ?_
  rw [absolute] at inside ⊢
  rw [Decimal.number_numeral]
  refine shortest_isCloser this few (fun less fewer => ?_) inside
  exact ten_pow_le_of_lt_length_significant isDigit (Decimal.ofDigitChars_numeral _) fewer

variable (stands : Binary64.ofFloat numeral.toFloat = .finite false mantissa shift)
include stands

private theorem roundsToDouble_numeral_shortest :
    RoundsToDouble (shortest mantissa shift).numeral.number numeral.toFloat := by
  obtain ⟨small, nearest⟩ := shortest_isNearest (Binary64.isMagnitude_of_ofFloat stands)
  rw [Decimal.number_numeral]
  exact .intro (by rwa [abs_of_nonneg (Decimal.value_nonneg _)]) stands nearest

theorem Numeral.isShortest_of_eq (same : numeral = (shortest mantissa shift).numeral) :
    numeral.IsShortest := by
  have this := Binary64.isMagnitude_of_ofFloat stands
  refine ⟨?_, ?_, fun exact count digits rounds => ?_, fun double exact value digits rounds => ?_⟩
  · rw [same]
    exact isReduced_numeral_shortest this
  · rw [same, Decimal.number_numeral]
    exact (shortest_isNearest this).1
  · have inside := rounds.inInterval stands
    rw [precision, same]
    exact length_significant_shortest_le this inside digits
  · have inside := rounds.inInterval stands
    rw [stands] at value
    cases value
    rw [same] at digits ⊢
    exact shortest_number_isCloser this digits inside

theorem Numeral.IsShortest.eq_numeral_shortest (isShortest : numeral.IsShortest) :
    numeral = (shortest mantissa shift).numeral := by
  have this := Binary64.isMagnitude_of_ofFloat stands
  obtain ⟨reduced, finite, fewest, closest⟩ := isShortest
  have plain := Decimal.isPlain_numeral (shortest mantissa shift)
  have digits := hasDigits_number reduced.isPlain.isProper reduced.exponent
  have nearest : IsNearestDouble numeral.number numeral.toFloat := by
    rw [number_eq_value reduced.exponent]
    exact Decimal.toFloat_isNearestDouble _
  have rounds := nearest.roundsToDouble numeral.number_nonneg finite
  have otherRounds := roundsToDouble_numeral_shortest stands
  have inside := rounds.inInterval stands
  have otherDigits := hasDigits_number plain.isProper plain.exponent
  have precision : numeral.precision = (shortest mantissa shift).numeral.precision :=
    le_antisymm (fewest _ _ otherDigits otherRounds)
      (length_significant_shortest_le this inside digits)
  rw [precision] at digits closest
  have value : (Binary64.ofFloat numeral.toFloat).number? = some (magnitude mantissa shift) := by
    rw [stands]
    rfl
  exact reduced.eq_of_number_eq (isReduced_numeral_shortest this)
    ((closest _ _ value otherDigits otherRounds).antisymm
      (shortest_number_isCloser this digits inside))

end Shortest

/-- A numeral is the text of the double that it is read as if and only if it is the shortest of this
double. -/
theorem shortestText_toFloat_eq_iff {numeral : Numeral} (proper : numeral.IsProper) :
    (shortestText numeral.toFloat).toList = numeral.spelling ↔ numeral.IsShortest := by
  have nearest : IsNearestDouble numeral.decimal.value numeral.toFloat :=
    Decimal.toFloat_isNearestDouble _
  cases nearest with
  | infinite large stands =>
      constructor
      · intro same
        have found : Numeral.scan? (numeral.spelling ++ []) = some (numeral, []) :=
          Numeral.scan?_spelling proper nofun
        rw [← same, shortestText, stands] at found
        cases found
      · intro isShortest
        rw [← Numeral.number_eq_value isShortest.reduced.exponent] at large
        exact absurd isShortest.finite large.not_gt
  | @finite mantissa shift _ stands =>
      have text : (shortestText numeral.toFloat).toList =
          (shortest mantissa shift).numeral.spelling := by
        rw [shortestText, stands, Binary64.text, String.toList_append, Decimal.toList_text]
        rfl
      rw [text]
      constructor
      · intro same
        exact Numeral.isShortest_of_eq stands
          (Numeral.eq_of_spelling_eq proper (Decimal.isPlain_numeral _).isProper same.symm)
      · intro isShortest
        rw [← isShortest.eq_numeral_shortest stands]

example : Numeral.IsShortest ⟨['0'], some ['1'], none⟩ :=
  (shortestText_toFloat_eq_iff (by decide)).mp (by decide +kernel)

end Calculator
