import Calculator.Proofs.Number.Exact
import Calculator.Proofs.Number.Reading
import Calculator.Value

/-!
# Numbers shown to the hundredth

The text of a finite double is its sign, the digits of a whole number, a point and two digits. They
write the whole number of hundredths that is nearest to the exact value, and of two equally near
ones the even one.
-/

set_option autoImplicit false

namespace Calculator

/-!
## Rounding to a whole number
-/

/-- The whole number nearest to a number, of two equally near ones the even one. -/
structure IsNearestWhole (exact : ℚ) (whole : Nat) : Prop where
  nearest : ∀ other : ℤ, |exact - whole| ≤ |exact - other|
  even : ∀ other : ℤ, other ≠ whole → |exact - whole| = |exact - other| → whole % 2 = 0

/-- A whole number within half of one is nearest, and closer than that if it is odd. -/
theorem isNearestWhole_of_half {exact : ℚ} {whole : Nat} (upper : 2 * exact ≤ 2 * whole + 1)
    (lower : 2 * whole ≤ 2 * exact + 1)
    (strict : whole % 2 = 1 → 2 * exact < 2 * whole + 1 ∧ 2 * whole < 2 * exact + 1) :
    IsNearestWhole exact whole := by
  have above {other : ℤ} (greater : (whole : ℚ) < other) : (whole : ℚ) + 1 ≤ other := by
    exact_mod_cast greater
  have below {other : ℤ} (less : (other : ℚ) < whole) : (other : ℚ) + 1 ≤ whole := by
    exact_mod_cast less
  refine ⟨fun other => ?_, fun other different tie => ?_⟩
  · refine abs_sub_le_of_middle (fun greater => ?_) fun less => ?_
    · have apart := above greater
      linarith
    · have apart := below less
      linarith
  · refine Nat.mod_two_ne_one.mp fun odd => ne_of_lt ?_ tie
    rcases strict odd with ⟨upper, lower⟩
    refine abs_sub_lt_of_middle (by exact_mod_cast different) (fun greater => ?_) fun less => ?_
    · have apart := above greater
      linarith
    · have apart := below less
      linarith

theorem roundHalfEven_isNearestWhole (num : Nat) {den : Nat} (positive : 0 < den) :
    IsNearestWhole (num / den) (roundHalfEven num den) := by
  have upper := @two_mul_le_roundHalfEven num den positive
  have lower := two_mul_roundHalfEven_le num den
  have even := fun tie => @roundHalfEven_even num den tie positive
  generalize roundHalfEven num den = whole at upper lower even
  have strict (odd : whole % 2 = 1) :
      2 * num < 2 * (whole * den) + den ∧ 2 * (whole * den) < 2 * num + den :=
    ⟨lt_of_le_of_ne upper fun tie => absurd (even (.inl tie)) (by omega),
      lt_of_le_of_ne lower fun tie => absurd (even (.inr tie)) (by omega)⟩
  have unit : (0 : ℚ) < den := by exact_mod_cast positive
  have scaled : (num : ℚ) = num / den * den := (div_mul_cancel₀ _ unit.ne').symm
  refine isNearestWhole_of_half ?_ ?_ fun odd => ⟨?_, ?_⟩
  · have cast : (2 * num : ℚ) ≤ 2 * (whole * den) + den := by exact_mod_cast upper
    exact le_of_mul_le_mul_right (by linarith) unit
  · have cast : (2 * (whole * den) : ℚ) ≤ 2 * num + den := by exact_mod_cast lower
    exact le_of_mul_le_mul_right (by linarith) unit
  · have cast : (2 * num : ℚ) < 2 * (whole * den) + den := by exact_mod_cast (strict odd).1
    exact lt_of_mul_lt_mul_right (by linarith) unit.le
  · have cast : (2 * (whole * den) : ℚ) < 2 * num + den := by exact_mod_cast (strict odd).2
    exact lt_of_mul_lt_mul_right (by linarith) unit.le

theorem hundredths_isNearestWhole (mantissa shift : Nat) :
    IsNearestWhole (100 * magnitude mantissa shift) (hundredths mantissa shift).coefficient := by
  have unit (power : Nat) : ((1 <<< power : Nat) : ℚ) = 2 ^ power := by
    rw [Nat.one_shiftLeft, Nat.cast_pow, Nat.cast_ofNat]
  have positive : 0 < 1 <<< 1074 := by
    rw [Nat.one_shiftLeft]
    exact Nat.two_pow_pos 1074
  have quotient : (100 : ℚ) * magnitude mantissa shift =
      ((100 * mantissa <<< shift : Nat) : ℚ) / ((1 <<< 1074 : Nat) : ℚ) := by
    rw [unit, magnitude, Nat.shiftLeft_eq, ← mul_div_assoc]
    push_cast
    rfl
  rw [quotient]
  exact roundHalfEven_isNearestWhole _ positive

/-!
## Writing a whole number
-/

/-- The digits that write a number, none of them superfluous. -/
structure WritesWhole (digits : List Char) (whole : Nat) : Prop where
  inside : ∀ c ∈ digits, c.isDigit = true
  nonempty : digits ≠ []
  first : digits.head? = some '0' → digits = ['0']
  value : Nat.ofDigitChars 10 digits 0 = whole

theorem toDigits_writesWhole (whole : Nat) : WritesWhole (Nat.toDigits 10 whole) whole := by
  have inside : ∀ c ∈ Nat.toDigits 10 whole, c.isDigit = true :=
    fun _ => Decimal.isDigit_of_mem_toDigits
  have value : Nat.ofDigitChars 10 (Nat.toDigits 10 whole) 0 = whole :=
    Nat.ofDigitChars_ten_toDigits
  refine ⟨inside, Nat.toDigits_ne_nil, fun begins => ?_, value⟩
  rcases List.head?_eq_some_iff.mp begins with ⟨tail, shape⟩
  by_cases alone : tail = []
  · rw [shape, alone]
  · rw [shape] at inside
    have small := ofDigitChars_lt (fun c member => inside c (List.mem_cons_of_mem _ member)) 0
    have narrow : whole < 10 ^ tail.length := by
      rw [shape, Nat.ofDigitChars_cons] at value
      rw [← value]
      simpa using small
    have nonempty : 0 < tail.length := List.length_pos_iff.mpr alone
    have short := (Nat.length_toDigits_le_iff (by decide) nonempty).mpr narrow
    rw [shape, List.length_cons] at short
    omega

/-!
## The text of a number
-/

/-- The text of a number of hundredths. -/
theorem exists_toList_text (count : Nat) :
    ∃ tens ones : Char, tens.isDigit = true ∧ ones.isDigit = true ∧
      Nat.ofDigitChars 10 [tens, ones] 0 = count % 100 ∧
      (Decimal.text { coefficient := count, exponent := -2 }).toList =
        Nat.toDigits 10 (count / 100) ++ ['.', tens, ones] := by
  have length := Decimal.length_places count 1
  have inside := fun c => @Decimal.isDigit_of_mem_places count 1 c
  have value := Decimal.ofDigitChars_places count 1 0
  have text := Decimal.toList_text { coefficient := count, exponent := -2 }
  have shape : (Decimal.numeral { coefficient := count, exponent := -2 }).spelling =
      Nat.toDigits 10 (count / 100) ++
        '.' :: (Nat.toDigits 10 (count % Nat.pow 10 (1 + 1))).leftpad (1 + 1) '0' := by
    rw [Numeral.spelling]
    exact List.append_nil _
  generalize (Nat.toDigits 10 (count % Nat.pow 10 (1 + 1))).leftpad (1 + 1) '0' = places at *
  rcases List.length_eq_two.mp length with ⟨tens, ones, rfl⟩
  refine ⟨tens, ones, inside tens (by simp), inside ones (by simp), ?_, text.trans shape⟩
  rw [value]
  exact Nat.zero_add _

/-- A finite number is shown as its sign and the nearest number of hundredths. -/
theorem number_shows_nearest_hundredth {value : Float} (finite : value.isFinite = true) :
    ∃ mantissa shift count whole tens ones,
      Binary64.ofFloat value =
        .finite (decide (value.toBits >>> 63 = 1)) mantissa shift ∧
      IsNearestWhole (100 * magnitude mantissa shift) count ∧
      (Value.number value).text.toList =
        (if value.toBits >>> 63 = 1 then ['-'] else []) ++ whole ++ ['.', tens, ones] ∧
      WritesWhole whole (count / 100) ∧ tens.isDigit = true ∧ ones.isDigit = true ∧
      Nat.ofDigitChars 10 [tens, ones] 0 = count % 100 := by
  rcases Binary64.exists_finite finite with ⟨mantissa, shift, stands⟩
  rcases exists_toList_text (hundredths mantissa shift).coefficient with
    ⟨tens, ones, tensDigit, onesDigit, places, text⟩
  refine ⟨mantissa, shift, (hundredths mantissa shift).coefficient, _, tens, ones, stands,
    hundredths_isNearestWhole mantissa shift, ?_, toDigits_writesWhole _, tensDigit, onesDigit,
    places⟩
  show (hundredthsText value).toList = _
  rw [hundredthsText, stands, Binary64.text, String.toList_append, List.append_assoc, ← text]
  by_cases negative : value.toBits >>> 63 = 1
  · simp [negative]
    rfl
  · simp [negative]
    rfl

/-- An eighth is as near to twelve hundredths as to thirteen, and shown as the even number. -/
theorem eighth_shows_nearest_hundredth :
    (Float.ofBits 0x3fc0000000000000).isFinite = true ∧
      ∃ mantissa shift count whole tens ones,
        Binary64.ofFloat (Float.ofBits 0x3fc0000000000000) =
          .finite (decide ((Float.ofBits 0x3fc0000000000000).toBits >>> 63 = 1))
            mantissa shift ∧
        IsNearestWhole (100 * magnitude mantissa shift) count ∧
        (Value.number (Float.ofBits 0x3fc0000000000000)).text.toList =
          (if (Float.ofBits 0x3fc0000000000000).toBits >>> 63 = 1 then ['-'] else []) ++
            whole ++ ['.', tens, ones] ∧
        WritesWhole whole (count / 100) ∧ tens.isDigit = true ∧ ones.isDigit = true ∧
        Nat.ofDigitChars 10 [tens, ones] 0 = count % 100 := by
  have finite : (Float.ofBits 0x3fc0000000000000).isFinite = true := by decide +kernel
  exact ⟨finite, number_shows_nearest_hundredth finite⟩

example : (Value.number (Float.ofBits 0x3fc0000000000000)).text = "0.12" := by decide +kernel

end Calculator
