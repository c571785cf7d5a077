import Calculator.Proofs.Number.Hundredths
import Calculator.Proofs.Number.Interval
import Calculator.Proofs.Number.Literal
import Calculator.Proofs.Printing.Tokens
import Calculator.Proofs.Shell.Response

/-!
# Hundredths as they are typed

A literal of a whole number of hundredths is read as a double and shown to the hundredth. Below
`2 ^ 46` doubles are so close to each other that what is typed is what is shown.
-/

set_option autoImplicit false

namespace Calculator

/-!
## Doubles below `2 ^ 46`
-/

section Spacing

variable {exact : ℚ} {mantissa shift count : Nat}

/-- Among mantissas of full width, the middle below the least one is the lowest, although it is
nearer than the others are to theirs. -/
theorem le_sub_gapBelow (full : leadingBit ≤ mantissa) (normal : shift ≠ 0) :
    (2 ^ 52 - 1 / 4 : ℚ) ≤ mantissa - gapBelow mantissa shift / 4 := by
  have leading := leadingBit_eq
  rcases full.eq_or_lt with least | more
  · have gap : gapBelow mantissa shift = 1 := if_pos ⟨least.symm, normal⟩
    rw [gap, ← least, leading]
    norm_num
  · have gap := gapBelow_cast_le mantissa shift
    have next : (2 ^ 52 + 1 : ℚ) ≤ mantissa := by
      rw [leading] at more
      exact_mod_cast more
    linarith

/-- Where units are greater, doubles are at least `2 ^ 46`, and none of them is nearest to a number
that is a hundredth below. -/
theorem InInterval.unitInLastPlace_le (inside : InInterval exact mantissa shift)
    (this : IsMagnitude mantissa shift) (small : exact ≤ 2 ^ 46 - 1 / 100) :
    unitInLastPlace shift ≤ 1 / 2 ^ 7 := by
  rcases Nat.lt_or_ge shift 1068 with lesser | greater
  · have within := unitInLastPlace_mono (Nat.le_of_lt_succ lesser)
    rwa [@unitInLastPlace_eq 1067 7 rfl] at within
  · have normal : shift ≠ 0 := Nat.ne_of_gt (Nat.lt_of_lt_of_le (Nat.succ_pos 1067) greater)
    have wide := le_sub_gapBelow (this.full normal) normal
    have unit := unitInLastPlace_mono greater
    rw [@unitInLastPlace_eq 1068 6 rfl] at unit
    have lower := inside.lower
    rw [magnitude_eq_mul] at lower
    have middle : (2 ^ 52 - 1 / 4 : ℚ) * (1 / 2 ^ 6) ≤
        (mantissa - gapBelow mantissa shift / 4) * unitInLastPlace shift :=
      mul_le_mul wide unit (by positivity) (le_trans (by norm_num) wide)
    linarith

private theorem IsNearestWhole.eq_of_near {whole : Nat} (nearest : IsNearestWhole exact whole)
    (near : |exact - count| < 1 / 2) : whole = count := by
  have distance := nearest.nearest count
  rw [Int.cast_natCast] at distance
  obtain ⟨above, below⟩ := abs_sub_lt_iff.mp near
  obtain ⟨wholeAbove, wholeBelow⟩ := abs_sub_lt_iff.mp (distance.trans_lt near)
  have upper : (whole : ℚ) < count + 1 := by linarith
  have lower : (count : ℚ) < whole + 1 := by linarith
  norm_cast at upper lower
  omega

end Spacing

/-- A double nearest to a number of hundredths below `2 ^ 46` is rounded to this number of
hundredths. -/
theorem IsNearestDouble.exists_hundredths {count : Nat} {value : Float}
    (nearest : IsNearestDouble (count / 100) value) (small : (count : ℚ) / 100 < 2 ^ 46) :
    ∃ mantissa shift, Binary64.ofFloat value = .finite false mantissa shift ∧
      hundredths mantissa shift = { coefficient := count, exponent := -2 } := by
  cases nearest with
  | infinite large =>
      have least : (2 : ℚ) ^ 46 ≤ 2 ^ 970 := pow_le_pow_right₀ (by norm_num) (by norm_num)
      have most : (2 : ℚ) ^ 971 ≤ 2 ^ 1024 := pow_le_pow_right₀ (by norm_num) (by norm_num)
      rw [pow_succ' 2 970, two_mul] at most
      exact absurd (small.trans_le (least.trans (le_sub_iff_add_le.mpr most)))
        (not_lt_of_ge large)
  | @finite mantissa shift limit stands le even =>
      have this := Binary64.isMagnitude_of_ofFloat stands
      have nearest : IsNearest (count / 100) (magnitude mantissa shift) mantissa := ⟨le, even⟩
      have inside := nearest.inInterval this (by positivity) limit
      have whole : (count : ℚ) / 100 ≤ 2 ^ 46 - 1 / 100 := by
        rw [div_lt_iff₀ (by norm_num)] at small
        have next : (count : ℚ) + 1 ≤ 2 ^ 46 * 100 := by exact_mod_cast small
        linarith
      have unit := inside.unitInLastPlace_le this whole
      obtain ⟨above, below⟩ := abs_sub_le_iff.mp inside.abs_sub_le
      have near : |100 * magnitude mantissa shift - count| < 1 / 2 :=
        abs_sub_lt_iff.mpr ⟨by linarith, by linarith⟩
      have coefficient := (hundredths_isNearestWhole mantissa shift).eq_of_near near
      exact ⟨mantissa, shift, stands, congrArg (Decimal.mk · (-2)) coefficient⟩

private theorem Numeral.isNearestDouble_of_zero {numeral : Numeral} (zero : numeral.number = 0) :
    IsNearestDouble numeral.number numeral.toFloat := by
  have digits : Nat.ofDigitChars 10 (numeral.whole ++ numeral.places) 0 = 0 := by
    rw [number_eq, decimalWith, Decimal.value] at zero
    rcases mul_eq_zero.mp zero with digits | power
    · exact_mod_cast digits
    · exact absurd power (zpow_ne_zero _ (by norm_num))
  have read : numeral.decimal.value = 0 := by
    rw [Decimal.value]
    show (Nat.ofDigitChars 10 (numeral.whole ++ numeral.places) 0 : ℚ) * _ = 0
    rw [digits, Nat.cast_zero, zero_mul]
  rw [zero, ← read]
  exact Decimal.toFloat_isNearestDouble _

/-!
## Texts of one phrase
-/

theorem Shell.response_of_phrase {source : String} {phrase : Phrase}
    (derived : Derives .sum phrase) (fits : phrase.FitsWithin 0)
    (read : tokenize source = phrase.tokens) :
    response source = phrase.tree.value.text ++ "\n" := by
  rw [response, evaluate_of_phrase derived fits read]

section Literals

variable {numeral : Numeral} (proper : numeral.IsProper)
include proper

theorem Shell.response_numeral :
    response (String.ofList numeral.spelling) = hundredthsText numeral.toFloat ++ "\n" := by
  have derived : Derives .sum (.number numeral.toFloat) := Derives.number.toSum
  have fits : (Phrase.number numeral.toFloat).FitsWithin 0 :=
    Phrase.fitsWithin_of_leaf rfl rfl (by decide)
  refine response_of_phrase derived fits ?_
  rw [tokenize_eq_stream, String.toList_ofList]
  exact Token.stream_lexeme (.number proper)

theorem Shell.response_minus_numeral :
    response (String.ofList ('-' :: numeral.spelling)) =
      hundredthsText (-numeral.toFloat) ++ "\n" := by
  have derived : Derives .sum (.signed .minus (.number numeral.toFloat)) :=
    (Derives.signed (.ofApplication (.ofPrimary .number))).toSum
  have leaf : (Phrase.number numeral.toFloat).FitsWithin 1 :=
    Phrase.fitsWithin_of_leaf rfl rfl (by decide)
  have fits : (Phrase.signed .minus (.number numeral.toFloat)).FitsWithin 0 :=
    Phrase.fitsWithin_signed_iff.mpr ⟨leaf, show 1 < maxNesting by decide⟩
  refine response_of_phrase derived fits ?_
  rw [tokenize_eq_stream, String.toList_ofList]
  exact (stream_sign .minus _).trans
    (congrArg (Token.minus :: ·) (Token.stream_lexeme (.number proper)))

end Literals

/-!
## Literals of hundredths
-/

/-- A literal of a number of hundredths below `2 ^ 46` is answered with this number, in plain digits
and two places, and with a minus in front if the literal has one in front. Every digit of its
exponent counts if they make a number below ten times the limit; for zero, the exponent does not
matter. -/
theorem hundredths_are_shown_as_typed {text : List Char}
    (matched : text ∈ Pattern.number.matches' ∨ text ∈ Pattern.pointNumber.matches') :
    ∃ numeral : Numeral, numeral.IsProper ∧ numeral.spelling = text ∧
      ∀ count : Nat, numeral.number = count / 100 → (count : ℚ) / 100 < 2 ^ 46 →
        (count = 0 ∨ ∀ exponent ∈ numeral.exponent,
          Nat.ofDigitChars 10 exponent.digits 0 < 10 * Exponent.limit) →
        ∃ whole tens ones, WritesWhole whole (count / 100) ∧
          tens.isDigit = true ∧ ones.isDigit = true ∧
          Nat.ofDigitChars 10 [tens, ones] 0 = count % 100 ∧
          (Shell.response (String.ofList text)).toList = whole ++ ['.', tens, ones, '\n'] ∧
          (Shell.response (String.ofList ('-' :: text))).toList =
            '-' :: (whole ++ ['.', tens, ones, '\n']) := by
  obtain ⟨numeral, proper, rfl⟩ := Pattern.exists_numeral matched
  refine ⟨numeral, proper, rfl, fun count value small counts => ?_⟩
  have nearest : IsNearestDouble numeral.number numeral.toFloat := by
    rcases counts with zero | few
    · rw [zero, Nat.cast_zero, zero_div] at value
      exact Numeral.isNearestDouble_of_zero value
    · exact Numeral.IsModerate.isNearestDouble (.inl few) proper
  rw [value] at nearest
  obtain ⟨mantissa, shift, stands, rounded⟩ := nearest.exists_hundredths small
  obtain ⟨tens, ones, tensDigit, onesDigit, places, written⟩ := exists_toList_text count
  have opposite := Binary64.ofFloat_neg stands
  refine ⟨_, tens, ones, toDigits_writesWhole _, tensDigit, onesDigit, places, ?_, ?_⟩
  · rw [Shell.response_numeral proper, hundredthsText, stands, Binary64.text, rounded,
      String.toList_append, String.toList_append, written]
    simp
  · rw [Shell.response_minus_numeral proper, hundredthsText, opposite, Binary64.text, rounded,
      String.toList_append, String.toList_append, written]
    simp

/-- The greatest number of hundredths below `2 ^ 46`, with a point in front and an exponent. -/
theorem hundredths_are_shown_as_typed_greatest :
    ".7036874417766399e14".toList ∈ Pattern.pointNumber.matches' ∧
      ∃ whole tens ones, WritesWhole whole 70368744177663 ∧
        tens.isDigit = true ∧ ones.isDigit = true ∧ Nat.ofDigitChars 10 [tens, ones] 0 = 99 ∧
        (Shell.response (String.ofList ".7036874417766399e14".toList)).toList =
          whole ++ ['.', tens, ones, '\n'] ∧
        (Shell.response (String.ofList ('-' :: ".7036874417766399e14".toList))).toList =
          '-' :: (whole ++ ['.', tens, ones, '\n']) := by
  have proper :
      Numeral.IsProper ⟨[], some "7036874417766399".toList, some ⟨'e', none, "14".toList⟩⟩ := by
    decide
  have matched : ".7036874417766399e14".toList ∈ Pattern.pointNumber.matches' :=
    Pattern.mem_pointNumber_iff.mpr ⟨_, proper, rfl, by decide⟩
  obtain ⟨numeral, isProper, spelled, shown⟩ := hundredths_are_shown_as_typed (.inr matched)
  obtain rfl := Numeral.eq_of_spelling_eq isProper proper (spelled.trans (by decide))
  have value : Numeral.number
      ⟨[], some "7036874417766399".toList, some ⟨'e', none, "14".toList⟩⟩ =
        (7036874417766399 : Nat) / 100 := by
    rw [Numeral.number_eq]
    show ((7036874417766399 : Nat) : ℚ) * 10 ^ (-2 : Int) = _
    norm_num
  exact ⟨matched, shown 7036874417766399 value (by norm_num) (.inr (by decide))⟩

/-- Where the last digit of the exponent does not count, what is typed need not be what is shown. -/
theorem one_behind_many_zeros_shows_zero :
    (Numeral.oneBehind 655359 "655360".toList).spelling ∈ Pattern.number.matches' ∧
      (Numeral.oneBehind 655359 "655360".toList).number = (100 : Nat) / 100 ∧
      ((100 : Nat) / 100 : ℚ) < 2 ^ 46 ∧
      Shell.response (String.ofList (Numeral.oneBehind 655359 "655360".toList).spelling) =
        "0.00\n" := by
  have nonempty : "655360".toList ≠ [] := by decide
  have inside : ∀ c ∈ "655360".toList, c.isDigit = true := List.all_eq_true.mp (by decide)
  have zero : (Numeral.oneBehind 655359 "655360".toList).toFloat = Float.ofBits 0 := by
    rw [Numeral.toFloat_oneBehind]
    exact @Decimal.toFloat_of_small _ 1 (by decide) (by decide)
  have exponent : (Nat.ofDigitChars 10 "655360".toList 0 : Int) - (655359 + 1 : Nat) = 0 := by
    decide
  have shown : hundredthsText (Float.ofBits 0) ++ "\n" = "0.00\n" := by decide +kernel
  refine ⟨Numeral.oneBehind_matches 655359 nonempty inside, ?_, by norm_num, ?_⟩
  · rw [Numeral.number_oneBehind, exponent]
    norm_num
  · rw [Shell.response_numeral (Numeral.isProper_oneBehind 655359 nonempty inside), zero]
    exact shown

end Calculator
