import Calculator.Proofs.Number.Scanning
import Calculator.Proofs.Number.Shortest

/-!
# Numbers read back

The text of a decimal is a numeral without an exponent. In front of anything that does not continue
it, this numeral is found as a whole, and it stands for the value of the decimal. With what is known
of shortest decimals, the text of an unsigned double reads as this double.
-/

set_option autoImplicit false

namespace Calculator

/-!
## Digits
-/

theorem digit_le {c : Char} (digit : c.isDigit = true) : c.toNat - '0'.toNat ≤ 9 := by
  have upper : c.toNat ≤ 57 := of_decide_eq_true (Bool.and_eq_true_iff.mp digit).2
  exact Nat.sub_le_of_le_add upper

theorem ofDigitChars_lt {digits : List Char} (inside : ∀ c ∈ digits, c.isDigit = true)
    (init : Nat) : Nat.ofDigitChars 10 digits init < (init + 1) * 10 ^ digits.length := by
  induction digits generalizing init with
  | nil => simp
  | cons c digits ih =>
      have digit := digit_le (inside c List.mem_cons_self)
      have further := ih (fun c member => inside c (List.mem_cons_of_mem _ member))
        (10 * init + (c.toNat - '0'.toNat))
      rw [Nat.ofDigitChars_cons, List.length_cons, Nat.pow_succ']
      calc Nat.ofDigitChars 10 digits (10 * init + (c.toNat - '0'.toNat))
          < (10 * init + (c.toNat - '0'.toNat) + 1) * 10 ^ digits.length := further
        _ ≤ ((init + 1) * 10) * 10 ^ digits.length := Nat.mul_le_mul_right _ (by omega)
        _ = (init + 1) * (10 * 10 ^ digits.length) := Nat.mul_assoc _ _ _

theorem le_ofDigitChars (digits : List Char) (init : Nat) :
    init ≤ Nat.ofDigitChars 10 digits init := by
  rw [Nat.ofDigitChars_eq_ofDigitChars_zero]
  exact Nat.le_add_right_of_le (Nat.le_mul_of_pos_left _ (Nat.pow_pos (Nat.succ_pos 9)))

/-!
## Plain numerals
-/

namespace Numeral

/-- A numeral of digits, perhaps with a point between them. -/
structure IsPlain (numeral : Numeral) : Prop where
  whole_ne_nil : numeral.whole ≠ []
  whole : ∀ c ∈ numeral.whole, c.isDigit = true
  fraction_ne_nil : numeral.fraction ≠ some []
  fraction : ∀ digits, numeral.fraction = some digits → ∀ c ∈ digits, c.isDigit = true
  exponent : numeral.exponent = none

theorem IsPlain.isProper {numeral : Numeral} (plain : numeral.IsPlain) : numeral.IsProper where
  whole := plain.whole
  fraction digits present :=
    ⟨fun empty => plain.fraction_ne_nil (empty ▸ present), plain.fraction digits present⟩
  exponent := by
    rw [plain.exponent]
    exact nofun
  nonempty := .inl plain.whole_ne_nil

end Numeral

/-!
## The numeral of a decimal
-/

namespace Decimal

/-- The numeral that the text of a decimal spells. -/
def numeral (number : Decimal) : Numeral :=
  match number.exponent with
  | .ofNat zeros =>
      { whole := Nat.toDigits 10 (number.coefficient * Nat.pow 10 zeros)
        fraction := none
        exponent := none }
  | .negSucc last =>
      let scale := Nat.pow 10 (last + 1)
      { whole := Nat.toDigits 10 (number.coefficient / scale)
        fraction :=
          some ((Nat.toDigits 10 (number.coefficient % scale)).leftpad (last + 1) '0')
        exponent := none }

theorem toList_text (number : Decimal) : number.text.toList = number.numeral.spelling := by
  obtain ⟨coefficient, exponent⟩ := number
  cases exponent with
  | ofNat zeros => simp [text, numeral, Numeral.spelling]
  | negSucc last => simp [text, numeral, Numeral.spelling]

theorem isDigit_of_mem_toDigits {n : Nat} {c : Char} (member : c ∈ Nat.toDigits 10 n) :
    c.isDigit = true :=
  Nat.isDigit_of_mem_toDigits (by decide) (by decide) member

section Places

variable (coefficient last : Nat)

theorem length_places :
    ((Nat.toDigits 10 (coefficient % Nat.pow 10 (last + 1))).leftpad (last + 1) '0').length =
      last + 1 := by
  have below : coefficient % 10 ^ (last + 1) < 10 ^ (last + 1) :=
    Nat.mod_lt _ (Nat.pow_pos (Nat.succ_pos 9))
  have short := (Nat.length_toDigits_le_iff (by decide) (Nat.succ_pos last)).mpr below
  rw [List.length_leftpad]
  exact Nat.max_eq_left short

theorem isDigit_of_mem_places {c : Char}
    (member : c ∈ (Nat.toDigits 10 (coefficient % Nat.pow 10 (last + 1))).leftpad (last + 1) '0') :
    c.isDigit = true := by
  rcases List.mem_append.mp member with zero | digit
  · rw [List.eq_of_mem_replicate zero]
    rfl
  · exact isDigit_of_mem_toDigits digit

theorem ofDigitChars_places (whole : Nat) :
    Nat.ofDigitChars 10
        ((Nat.toDigits 10 (coefficient % Nat.pow 10 (last + 1))).leftpad (last + 1) '0') whole =
      Nat.pow 10 (last + 1) * whole + coefficient % Nat.pow 10 (last + 1) := by
  rw [Nat.ofDigitChars_eq_ofDigitChars_zero, length_places, List.leftpad, Nat.ofDigitChars_append,
    Nat.ofDigitChars_replicate_zero, Nat.mul_zero, Nat.ofDigitChars_ten_toDigits]
  rfl

end Places

theorem isPlain_numeral (number : Decimal) : number.numeral.IsPlain := by
  obtain ⟨coefficient, exponent⟩ := number
  cases exponent with
  | ofNat zeros =>
      exact ⟨Nat.toDigits_ne_nil, fun _ => isDigit_of_mem_toDigits, nofun, nofun, rfl⟩
  | negSucc last =>
      refine ⟨Nat.toDigits_ne_nil, fun _ => isDigit_of_mem_toDigits, ?_, ?_, rfl⟩
      · intro empty
        have length := congrArg List.length (Option.some.inj empty)
        rw [length_places] at length
        cases length
      · rintro digits ⟨⟩ c member
        exact isDigit_of_mem_places coefficient last member

theorem numerator_numeral (number : Decimal) :
    number.numeral.decimal.numerator = number.numerator ∧
      number.numeral.decimal.denominator = number.denominator := by
  obtain ⟨coefficient, exponent⟩ := number
  cases exponent with
  | ofNat zeros =>
      simp only [numeral, Numeral.decimal, numerator, denominator]
      simp
  | negSucc last =>
      simp only [numeral, Numeral.decimal, numerator, denominator, Option.getD_some,
        Nat.ofDigitChars_append, Nat.ofDigitChars_ten_toDigits, ofDigitChars_places, length_places,
        Nat.div_add_mod]
      simp [Int.negSucc_eq]

end Decimal

/-- The text of an unsigned double is a plain numeral that reads as this double. -/
theorem IsUnsigned.exists_numeral {value : Float} (unsigned : IsUnsigned value) :
    ∃ numeral : Numeral, numeral.IsPlain ∧ (shortestText value).toList = numeral.spelling ∧
      numeral.toFloat = value := by
  obtain ⟨decimal, written, reads⟩ := unsigned.exists_decimal
  obtain ⟨above, below⟩ := decimal.numerator_numeral
  refine ⟨decimal.numeral, decimal.isPlain_numeral, ?_, reads _ above below⟩
  rw [written, decimal.toList_text]

end Calculator
