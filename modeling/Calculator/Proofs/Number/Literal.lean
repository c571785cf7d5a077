import Calculator.Proofs.Number.Exact
import Calculator.Proofs.Number.Reading
import Calculator.Proofs.Token.Lexeme
import Mathlib.Tactic.Ring

/-!
# The numbers of literals

A literal is read as the double nearest to the number that it writes. The digits of its exponent
only count up to the first that makes a power of at least `Exponent.limit`. No digit of an exponent
below ten times the limit is left out. With a greater exponent, a literal is beyond the range of
doubles either way, unless it has about as many digits on the other side of the point.
-/

set_option autoImplicit false

namespace Calculator

/-!
## Exponents
-/

/-- The digits that count behind those that make `power`: all up to the first that makes a power as
great as the limit. -/
structure CountFrom (power : Nat) (digits counted : List Char) : Prop where
  isPrefix : counted <+: digits
  small : ∀ front, front <+: counted → front ≠ counted →
    Nat.ofDigitChars 10 front power < Exponent.limit
  enough : counted ≠ digits → Exponent.limit ≤ Nat.ofDigitChars 10 counted power

namespace Exponent

private theorem exists_counted (power : Nat) (digits : List Char) :
    ∃ counted, CountFrom power digits counted ∧
      powerFrom power digits = Nat.ofDigitChars 10 counted power := by
  induction digits generalizing power with
  | nil =>
      refine ⟨[], ⟨List.prefix_rfl, ?_, nofun⟩, rfl⟩
      intro front begins shorter
      exact absurd (List.prefix_nil.mp begins) shorter
  | cons digit digits ih =>
      by_cases further : power < limit
      · rcases ih (Nat.ofDigitChars 10 [digit] power) with ⟨counted, counts, same⟩
        have next (front : List Char) : Nat.ofDigitChars 10 (digit :: front) power =
            Nat.ofDigitChars 10 front (Nat.ofDigitChars 10 [digit] power) :=
          Nat.ofDigitChars_append (l := [digit]) power
        refine ⟨digit :: counted, ⟨?_, ?_, ?_⟩, ?_⟩
        · exact List.cons_prefix_cons.mpr ⟨rfl, counts.isPrefix⟩
        · intro front begins shorter
          cases front with
          | nil => exact further
          | cons first front =>
              rcases List.cons_prefix_cons.mp begins with ⟨rfl, inside⟩
              rw [next]
              exact counts.small front inside fun same => shorter (by rw [same])
        · intro stopped
          rw [next]
          exact counts.enough fun same => stopped (by rw [same])
        · rw [next, powerFrom, if_pos further, same]
      · refine ⟨[], ⟨List.nil_prefix, ?_, fun _ => Nat.le_of_not_lt further⟩, ?_⟩
        · intro front begins shorter
          exact absurd (List.prefix_nil.mp begins) shorter
        · exact if_neg further

end Exponent

/-- The power that digits make behind a sign. -/
def signedPower (sign : Option Sign) (power : Nat) : Int :=
  match sign with
  | some .minus => -power
  | _ => power

/-- The power of ten that an exponent writes. -/
def Exponent.written (exponent : Exponent) : Int :=
  signedPower exponent.sign (Nat.ofDigitChars 10 exponent.digits 0)

namespace Numeral

def places (numeral : Numeral) : List Char :=
  numeral.fraction.getD []

/-- The number that a numeral writes. -/
def number (numeral : Numeral) : ℚ :=
  (Nat.ofDigitChars 10 numeral.whole 0 +
      Nat.ofDigitChars 10 numeral.places 0 / 10 ^ numeral.places.length) *
    10 ^ (numeral.exponent.map Exponent.written).getD 0

/-- A numeral and the one that is left of it if its exponent only has the digits that count. -/
inductive CountsAs : Numeral → Numeral → Prop where
  | plain {whole fraction} : CountsAs ⟨whole, fraction, none⟩ ⟨whole, fraction, none⟩
  | counted {whole fraction mark sign digits front} : CountFrom 0 digits front →
      CountsAs ⟨whole, fraction, some ⟨mark, sign, digits⟩⟩
        ⟨whole, fraction, some ⟨mark, sign, front⟩⟩

/-- A numeral of which no digit is left out, or with too few digits for that to matter: `10 ^ 309` is
too large for a double, and `10 ^ -324` too small. -/
def IsModerate (numeral : Numeral) : Prop :=
  (∀ exponent ∈ numeral.exponent, Nat.ofDigitChars 10 exponent.digits 0 < 10 * Exponent.limit) ∨
    (numeral.whole.length + 324 ≤ Exponent.limit ∧ numeral.places.length + 309 ≤ Exponent.limit)

/-- The decimal that a numeral would write with another exponent. -/
def decimalWith (numeral : Numeral) (power : Int) : Decimal :=
  { coefficient := Nat.ofDigitChars 10 (numeral.whole ++ numeral.places) 0
    exponent := power - numeral.places.length }

theorem number_eq (numeral : Numeral) :
    numeral.number =
      (numeral.decimalWith ((numeral.exponent.map Exponent.written).getD 0)).value := by
  have unit : (10 : ℚ) ^ numeral.places.length ≠ 0 := by positivity
  unfold number decimalWith Decimal.value
  dsimp only
  rw [Nat.ofDigitChars_append,
    @Nat.ofDigitChars_eq_ofDigitChars_zero numeral.places (Nat.ofDigitChars 10 numeral.whole 0),
    zpow_sub₀ (by norm_num), zpow_natCast]
  push_cast
  field_simp

theorem exists_countsAs (numeral : Numeral) :
    ∃ counted, numeral.CountsAs counted ∧ numeral.decimal.value = counted.number := by
  obtain ⟨whole, fraction, exponent⟩ := numeral
  cases exponent with
  | none => exact ⟨_, .plain, (number_eq _).symm⟩
  | some exponent =>
      obtain ⟨mark, sign, digits⟩ := exponent
      rcases Exponent.exists_counted 0 digits with ⟨front, counts, power⟩
      refine ⟨_, .counted counts, ?_⟩
      rw [number_eq]
      show (decimalWith _ (signedPower sign (Exponent.powerFrom 0 digits))).value = _
      rw [power]
      rfl

end Numeral

/-!
## Beyond the range of doubles
-/

namespace Decimal

variable {number : Decimal}

private theorem toFloat_of_large (nonzero : number.coefficient ≠ 0)
    (large : 309 ≤ number.exponent) :
    number.toFloat = infinity := by
  obtain ⟨zeros, exponent⟩ := Int.eq_ofNat_of_zero_le (show 0 ≤ number.exponent by omega)
  have least : 2 ^ 1024 ≤ number.numerator := by
    have powers : 2 ^ 1024 ≤ 10 ^ 309 := by decide +kernel
    have wide : 10 ^ zeros ≤ number.numerator := by
      rw [numerator, exponent, Int.toNat_natCast]
      exact Nat.le_mul_of_pos_left _ (Nat.pos_of_ne_zero nonzero)
    have enough : 309 ≤ zeros := by omega
    generalize 309 = most at powers enough
    exact powers.trans ((Nat.pow_le_pow_right (by decide) enough).trans wide)
  rw [toFloat_eq_nearest, denominator_of_whole (by omega), nearest,
    nearestWord_of_two_pow_le least, infinity]

theorem toFloat_of_small {width : Nat} (narrow : number.coefficient < 10 ^ width)
    (small : width + number.exponent ≤ -324) : number.toFloat = Float.ofBits 0 := by
  obtain ⟨places, exponent⟩ : ∃ places : Nat, number.exponent = -places :=
    ⟨(-number.exponent).toNat, by omega⟩
  have units : 4 * (number.numerator <<< 1074) ≤ 2 * number.denominator := by
    obtain ⟨unit, shifted, powers⟩ :
        ∃ unit, (∀ count, count <<< 1074 = count * unit) ∧ 2 * unit ≤ 10 ^ 324 :=
      ⟨_, fun count => Nat.shiftLeft_eq count 1074, by decide +kernel⟩
    rw [numerator_of_places exponent, denominator_of_places exponent, shifted]
    calc 4 * (number.coefficient * unit) = 2 * (number.coefficient * (2 * unit)) := by ring
      _ ≤ 2 * (10 ^ width * 10 ^ 324) :=
        Nat.mul_le_mul_left 2 (Nat.mul_le_mul narrow.le powers)
      _ = 2 * 10 ^ (width + 324) := by rw [Nat.pow_add]
      _ ≤ 2 * 10 ^ places :=
        Nat.mul_le_mul_left 2 (Nat.pow_le_pow_right (by decide) (by omega))
  rw [toFloat_eq_nearest, nearest, nearestWord_eq_zero number.denominator_pos units]
  rfl

end Decimal

/-!
## Moderate numerals
-/

private theorem Exponent.powerFrom_cases (digits : List Char) :
    powerFrom 0 digits = Nat.ofDigitChars 10 digits 0 ∨
      (limit ≤ powerFrom 0 digits ∧ 10 * limit ≤ Nat.ofDigitChars 10 digits 0) := by
  rcases exists_counted 0 digits with ⟨counted, counts, power⟩
  rcases counts.isPrefix with ⟨left, whole⟩
  cases left with
  | nil =>
      rw [List.append_nil] at whole
      exact .inl (power.trans (by rw [whole]))
  | cons c left =>
      have enough := counts.enough fun same => by simp [same] at whole
      have further := le_ofDigitChars left
        (10 * Nat.ofDigitChars 10 counted 0 + (c.toNat - '0'.toNat))
      rw [← Nat.ofDigitChars_cons, ← Nat.ofDigitChars_append, whole] at further
      exact .inr ⟨by omega, by omega⟩

namespace Numeral

variable {numeral : Numeral}

theorem IsProper.isDigit_of_mem (proper : numeral.IsProper) :
    ∀ c ∈ numeral.whole ++ numeral.places, c.isDigit = true := by
  intro c member
  rcases List.mem_append.mp member with whole | place
  · exact proper.whole c whole
  · cases shape : numeral.fraction with
    | none => simp [places, shape] at place
    | some digits =>
        rw [places, shape] at place
        exact (proper.fraction digits shape).2 c place

private theorem coefficient_lt (proper : numeral.IsProper) :
    Nat.ofDigitChars 10 (numeral.whole ++ numeral.places) 0 <
      10 ^ (numeral.whole.length + numeral.places.length) := by
  have narrow := ofDigitChars_lt proper.isDigit_of_mem 0
  rwa [List.length_append, Nat.zero_add, Nat.one_mul] at narrow

/-- Two powers that are both out of the range of doubles, whatever the digits in front of them are,
make the same double. -/
theorem toFloat_decimalWith_of_large (proper : numeral.IsProper)
    (short : numeral.whole.length + 324 ≤ Exponent.limit ∧
      numeral.places.length + 309 ≤ Exponent.limit) (sign : Option Sign) {power other : Nat}
    (large : Exponent.limit ≤ power) (otherLarge : Exponent.limit ≤ other) :
    (numeral.decimalWith (signedPower sign power)).toFloat =
      (numeral.decimalWith (signedPower sign other)).toFloat := by
  have narrow := coefficient_lt proper
  by_cases zero : Nat.ofDigitChars 10 (numeral.whole ++ numeral.places) 0 = 0
  · have vanishes (power : Int) : (numeral.decimalWith power).toFloat = nearest 0 1 := if_pos zero
    rw [vanishes, vanishes]
  · have above {power : Nat} (large : Exponent.limit ≤ power) :
        (numeral.decimalWith power).toFloat = infinity := by
      refine Decimal.toFloat_of_large zero ?_
      show 309 ≤ (power : Int) - numeral.places.length
      omega
    have below {power : Nat} (large : Exponent.limit ≤ power) :
        (numeral.decimalWith (-power)).toFloat = Float.ofBits 0 := by
      refine Decimal.toFloat_of_small narrow ?_
      show ((numeral.whole.length + numeral.places.length : Nat) : Int) +
        (-power - numeral.places.length) ≤ -324
      omega
    cases sign with
    | none => exact (above large).trans (above otherLarge).symm
    | some sign =>
        cases sign with
        | plus => exact (above large).trans (above otherLarge).symm
        | minus => exact (below large).trans (below otherLarge).symm

/-- A moderate numeral is read as the double nearest to the number that it writes. -/
theorem IsModerate.isNearestDouble (moderate : numeral.IsModerate) (proper : numeral.IsProper) :
    IsNearestDouble numeral.number numeral.toFloat := by
  have same : numeral.toFloat =
      (numeral.decimalWith ((numeral.exponent.map Exponent.written).getD 0)).toFloat := by
    obtain ⟨whole, fraction, exponent⟩ := numeral
    cases exponent with
    | none => rfl
    | some exponent =>
        obtain ⟨mark, sign, digits⟩ := exponent
        show (decimalWith _ (signedPower sign (Exponent.powerFrom 0 digits))).toFloat =
          (decimalWith _ (signedPower sign (Nat.ofDigitChars 10 digits 0))).toFloat
        rcases Exponent.powerFrom_cases digits with all | ⟨large, written⟩
        · rw [all]
        · rcases moderate with few | short
          · exact absurd (few _ rfl) (Nat.not_lt_of_le written)
          · exact toFloat_decimalWith_of_large proper short sign large (by omega)
  rw [number_eq, same]
  exact Decimal.toFloat_isNearestDouble _

end Numeral

/-!
## Literals
-/

/-- A literal is a token of its own in front of whatever does not continue it, and read as the
nearest double: to the number that it writes if it is moderate, and in any case to the number that
it writes with the digits of the exponent that count. -/
theorem literals_are_nearest_doubles {text : List Char}
    (matched : text ∈ Pattern.number.matches' ∨ text ∈ Pattern.pointNumber.matches') :
    ∃ numeral counted : Numeral, numeral.IsProper ∧ numeral.spelling = text ∧
      (∀ rest, StopsAt continuesNumeral rest →
        Token.stream (text ++ rest) = .number numeral.toFloat :: Token.stream rest) ∧
      (numeral.IsModerate → IsNearestDouble numeral.number numeral.toFloat) ∧
      numeral.CountsAs counted ∧ IsNearestDouble counted.number numeral.toFloat := by
  rcases Pattern.exists_numeral matched with ⟨numeral, proper, rfl⟩
  rcases numeral.exists_countsAs with ⟨counted, counts, same⟩
  refine ⟨numeral, counted, proper, rfl, ?_, fun moderate => moderate.isNearestDouble proper,
    counts, ?_⟩
  · intro rest stops
    refine Token.stream_eq_cons ?_ (by simp)
    rw [Token.next_lexeme (.number proper)]
    exact Token.lex_spelling proper (Numeral.scan?_spelling proper stops)
  · rw [← same]
    exact Decimal.toFloat_isNearestDouble _

/-- The literal `.5e1` writes five. -/
theorem literal_half_times_ten :
    ".5e1".toList ∈ Pattern.pointNumber.matches' ∧
      ∃ numeral counted : Numeral, numeral.IsProper ∧ numeral.spelling = ".5e1".toList ∧
        (∀ rest, StopsAt continuesNumeral rest →
          Token.stream (".5e1".toList ++ rest) = .number numeral.toFloat :: Token.stream rest) ∧
        numeral.IsModerate ∧ numeral.number = 5 ∧
        IsNearestDouble numeral.number numeral.toFloat ∧
        numeral.CountsAs counted ∧ IsNearestDouble counted.number numeral.toFloat := by
  have proper : Numeral.IsProper ⟨[], some ['5'], some ⟨'e', none, ['1']⟩⟩ := by
    refine ⟨nofun, ?_, ?_, .inr nofun⟩
    · rintro _ ⟨⟩
      exact ⟨nofun, List.all_eq_true.mp rfl⟩
    · rintro _ ⟨⟩
      exact ⟨.inl rfl, nofun, List.all_eq_true.mp rfl⟩
  have matched : ".5e1".toList ∈ Pattern.pointNumber.matches' :=
    Pattern.mem_pointNumber_iff.mpr ⟨_, proper, rfl, rfl⟩
  have moderate : Numeral.IsModerate ⟨[], some ['5'], some ⟨'e', none, ['1']⟩⟩ := by
    refine .inl fun exponent written => ?_
    cases written
    decide
  have five : Numeral.number ⟨[], some ['5'], some ⟨'e', none, ['1']⟩⟩ = 5 := by
    have place : Nat.ofDigitChars 10 ['5'] 0 = 5 := rfl
    have power : Nat.ofDigitChars 10 ['1'] 0 = 1 := rfl
    norm_num [Numeral.number, Numeral.places, Exponent.written, signedPower, place, power]
  obtain ⟨numeral, counted, formed, spelled, cut, nearest, counts, rounded⟩ :=
    literals_are_nearest_doubles (.inr matched)
  obtain rfl := Numeral.eq_of_spelling_eq formed proper spelled
  exact ⟨matched, _, counted, formed, spelled, cut, moderate, five, nearest moderate, counts,
    rounded⟩

/-- A one behind zeros, times a power of ten. -/
def Numeral.oneBehind (zeros : Nat) (digits : List Char) : Numeral :=
  { whole := ['0']
    fraction := some (List.replicate zeros '0' ++ ['1'])
    exponent := some ⟨'e', none, digits⟩ }

namespace Numeral

variable {digits : List Char}

theorem isProper_oneBehind (zeros : Nat) (nonempty : digits ≠ [])
    (inside : ∀ c ∈ digits, c.isDigit = true) : (oneBehind zeros digits).IsProper := by
  refine ⟨by simp [oneBehind], ?_, ?_, .inl nofun⟩
  · rintro _ ⟨⟩
    refine ⟨by simp, fun c member => ?_⟩
    rcases List.mem_append.mp member with zero | one
    · rw [List.eq_of_mem_replicate zero]
      rfl
    · rw [List.mem_singleton.mp one]
      rfl
  · rintro _ ⟨⟩
    exact ⟨.inl rfl, nonempty, inside⟩

theorem oneBehind_matches (zeros : Nat) (nonempty : digits ≠ [])
    (inside : ∀ c ∈ digits, c.isDigit = true) :
    (oneBehind zeros digits).spelling ∈ Pattern.number.matches' :=
  Pattern.mem_number_iff.mpr ⟨_, isProper_oneBehind zeros nonempty inside, nofun, rfl⟩

private theorem decimalWith_oneBehind (zeros : Nat) (digits : List Char) (power : Int) :
    (oneBehind zeros digits).decimalWith power =
      { coefficient := 1, exponent := power - (zeros + 1 : Nat) } := by
  have coefficient :
      Nat.ofDigitChars 10 (['0'] ++ (List.replicate zeros '0' ++ ['1'])) 0 = 1 := by
    rw [Nat.ofDigitChars_append, Nat.ofDigitChars_append, Nat.ofDigitChars_replicate_zero]
    rfl
  unfold decimalWith oneBehind places
  dsimp only [Option.getD_some]
  rw [coefficient, List.length_append, List.length_replicate]
  rfl

theorem toFloat_oneBehind (zeros : Nat) (digits : List Char) :
    (oneBehind zeros digits).toFloat =
      Decimal.toFloat
        { coefficient := 1
          exponent := Exponent.powerFrom 0 digits - (zeros + 1 : Nat) } := by
  rw [← decimalWith_oneBehind zeros digits]
  rfl

theorem number_oneBehind (zeros : Nat) (digits : List Char) :
    (oneBehind zeros digits).number =
      10 ^ ((Nat.ofDigitChars 10 digits 0 : Int) - (zeros + 1 : Nat)) := by
  rw [number_eq, decimalWith_oneBehind, Decimal.value, Nat.cast_one, one_mul]
  rfl

end Numeral

/-- After 65535 zeros, whether the last digit of the exponent counts decides between one and
infinity. -/
theorem one_behind_zeros_reads_one :
    (Numeral.oneBehind 65535 ['6', '5', '5', '3', '6', '0']).spelling ∈ Pattern.number.matches' ∧
      Token.lex (Numeral.oneBehind 65535 ['6', '5', '5', '3', '6', '0']).spelling =
        (.number (Float.ofBits 0x3ff0000000000000), []) ∧
      ¬ IsNearestDouble (Numeral.oneBehind 65535 ['6', '5', '5', '3', '6', '0']).number
        (Float.ofBits 0x3ff0000000000000) := by
  have one : (Numeral.oneBehind 65535 ['6', '5', '5', '3', '6', '0']).toFloat =
      Float.ofBits 0x3ff0000000000000 := by
    rw [Numeral.toFloat_oneBehind]
    decide +kernel
  have large : (2 ^ 1024 : ℚ) ≤
      (Numeral.oneBehind 65535 ['6', '5', '5', '3', '6', '0']).number := by
    have exponent : (Nat.ofDigitChars 10 ['6', '5', '5', '3', '6', '0'] 0 : Int) -
        (65535 + 1 : Nat) = (589824 : Nat) := by decide
    rw [Numeral.number_oneBehind, exponent, zpow_natCast]
    calc (2 : ℚ) ^ 1024 ≤ 10 ^ 1024 := pow_le_pow_left₀ (by norm_num) (by norm_num) 1024
      _ ≤ 10 ^ 589824 := pow_le_pow_right₀ (by norm_num) (by norm_num)
  have inside : ∀ c ∈ ['6', '5', '5', '3', '6', '0'], c.isDigit = true :=
    List.all_eq_true.mp rfl
  refine ⟨Numeral.oneBehind_matches 65535 nofun inside, ?_, fun near => ?_⟩
  · rw [← one]
    exact Token.lex_lexeme (.number (Numeral.isProper_oneBehind 65535 nofun inside))
  · cases near with
    | infinite _ stands =>
        revert stands
        decide +kernel
    | finite small =>
        have positive : (0 : ℚ) < 2 ^ 970 := by positivity
        exact absurd (small.trans_le (sub_le_self _ positive.le)) (not_lt_of_ge large)

end Calculator
