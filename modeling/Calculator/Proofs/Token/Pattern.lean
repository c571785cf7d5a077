import Mathlib.Computability.RegularExpressions
import Calculator.Proofs.Number.Scanning
import Calculator.Token.Lexer

/-!
# What tokens look like

Which texts are tokens, said without a scanner: a regular expression for each kind of word, and the
spellings of the symbols. A text that matches one of them stands for exactly one token.
-/

set_option autoImplicit false

namespace Calculator

/-!
## Regular expressions
-/

namespace Pattern

open RegularExpression (char star)

/-- One character from `first` to `last`. -/
def between (first last : Char) : RegularExpression Char :=
  ((List.range' first.toNat (last.toNat + 1 - first.toNat)).map fun code =>
    char (Char.ofNat code)).sum

def optional (pattern : RegularExpression Char) : RegularExpression Char :=
  pattern + 1

def repeated (pattern : RegularExpression Char) : RegularExpression Char :=
  pattern * star pattern

/-- `[0-9]+` -/
def digits : RegularExpression Char :=
  repeated (between '0' '9')

/-- `\.[0-9]+` -/
def fraction : RegularExpression Char :=
  char '.' * digits

/-- `[eE][+-]?[0-9]+` -/
def exponent : RegularExpression Char :=
  (char 'e' + char 'E') * (optional (char '+' + char '-') * digits)

/-- `[0-9]+(\.[0-9]+)?([eE][+-]?[0-9]+)?` -/
def number : RegularExpression Char :=
  digits * (optional fraction * optional exponent)

/-- `\.[0-9]+([eE][+-]?[0-9]+)?` -/
def pointNumber : RegularExpression Char :=
  fraction * optional exponent

/-- `[a-zA-Z_]` -/
def nameStart : RegularExpression Char :=
  between 'a' 'z' + between 'A' 'Z' + char '_'

/-- `[a-zA-Z_][a-zA-Z0-9_]*` -/
def name : RegularExpression Char :=
  nameStart * star (nameStart + between '0' '9')

end Pattern

/-- The tokens that are always spelled alike. -/
def symbols : List (List Char × Token) :=
  [(['+'], .plus), (['-'], .minus), (['*', '*'], .starStar), (['*'], .star), (['/'], .slash),
    (['('], .leftParen), ([')'], .rightParen), ([','], .comma)]

/-- A text that matches one of the patterns of tokens. -/
inductive IsLexeme (text : List Char) : Prop where
  | number : text ∈ Pattern.number.matches' → IsLexeme text
  | pointNumber : text ∈ Pattern.pointNumber.matches' → IsLexeme text
  | name : text ∈ Pattern.name.matches' → IsLexeme text
  | symbol {token} : (text, token) ∈ symbols → IsLexeme text

/-- The token of a matching text: a number as its digits make it, a name as it is written, or a
symbol. -/
inductive StandsFor : List Char → Token → Prop where
  | number {numeral : Numeral} : numeral.IsProper →
      StandsFor numeral.spelling (.number numeral.toFloat)
  | name {text} : text ∈ Pattern.name.matches' →
      StandsFor text (.identifier (String.ofList text))
  | symbol {text token} : (text, token) ∈ symbols → StandsFor text token

/-!
## Classes of characters
-/

namespace Pattern

open RegularExpression (char star)

/-- A pattern that matches the single characters of a class. -/
def MatchesClass (pattern : RegularExpression Char) (inClass : Char → Bool) : Prop :=
  ∀ text, text ∈ pattern.matches' ↔ ∃ c, inClass c = true ∧ text = [c]

section Classes

variable {pattern other : RegularExpression Char} {inClass inOther : Char → Bool}
variable {text : List Char}

theorem mem_sum_iff (patterns : List (RegularExpression Char)) :
    text ∈ patterns.sum.matches' ↔ ∃ pattern ∈ patterns, text ∈ pattern.matches' := by
  induction patterns with
  | nil => simp
  | cons pattern patterns ih =>
      rw [List.sum_cons, RegularExpression.matches'_add, Language.mem_add, ih]
      simp

theorem MatchesClass.congr (single : MatchesClass pattern inClass)
    (same : ∀ c, inClass c = inOther c) : MatchesClass pattern inOther :=
  (funext same : inClass = inOther) ▸ single

private theorem mem_char_iff (c : Char) : text ∈ (char c).matches' ↔ text = [c] := Iff.rfl

private theorem matchesClass_char (c : Char) : MatchesClass (char c) (· == c) := by
  intro text
  rw [mem_char_iff]
  simp

theorem MatchesClass.add (first : MatchesClass pattern inClass)
    (second : MatchesClass other inOther) :
    MatchesClass (pattern + other) fun c => inClass c || inOther c := by
  intro text
  rw [RegularExpression.matches'_add, Language.mem_add, first text, second text, ← exists_or]
  simp only [Bool.or_eq_true, or_and_right]

theorem MatchesClass.mem_star_iff (single : MatchesClass pattern inClass) :
    text ∈ (star pattern).matches' ↔ ∀ c ∈ text, inClass c = true := by
  rw [RegularExpression.matches'_star, Language.mem_kstar]
  constructor
  · rintro ⟨parts, rfl, inside⟩ c member
    obtain ⟨part, partMember, member⟩ := List.mem_flatten.mp member
    obtain ⟨only, holds, rfl⟩ := (single part).mp (inside part partMember)
    rw [List.mem_singleton.mp member]
    exact holds
  · intro inside
    refine ⟨text.map fun c => [c], ?_, ?_⟩
    · rw [← List.flatMap_def, List.flatMap_singleton']
    · intro part member
      obtain ⟨c, characterMember, rfl⟩ := List.mem_map.mp member
      exact (single [c]).mpr ⟨c, inside c characterMember, rfl⟩

private theorem MatchesClass.mem_repeated_iff (single : MatchesClass pattern inClass) :
    text ∈ (repeated pattern).matches' ↔ text ≠ [] ∧ ∀ c ∈ text, inClass c = true := by
  rw [repeated, RegularExpression.matches'_mul, Language.mem_mul]
  constructor
  · rintro ⟨first, firstMatches, rest, restMatches, rfl⟩
    obtain ⟨c, holds, rfl⟩ := (single first).mp firstMatches
    exact ⟨by simp, List.forall_mem_cons.mpr ⟨holds, single.mem_star_iff.mp restMatches⟩⟩
  · rintro ⟨nonempty, inside⟩
    obtain ⟨c, rest, rfl⟩ := List.exists_cons_of_ne_nil nonempty
    obtain ⟨first, further⟩ := List.forall_mem_cons.mp inside
    exact ⟨[c], (single [c]).mpr ⟨c, first, rfl⟩, rest, single.mem_star_iff.mpr further, rfl⟩

theorem mem_optional_iff :
    text ∈ (optional pattern).matches' ↔ text ∈ pattern.matches' ∨ text = [] := by
  rw [optional, RegularExpression.matches'_add, Language.mem_add,
    RegularExpression.matches'_epsilon, Language.mem_one]

private theorem toNat_ofNat {code : Nat} (low : code < 0xd800) :
    (Char.ofNat code).toNat = code := by
  rw [Char.ofNat, dif_pos (.inl low)]
  rfl

private theorem matchesClass_between {first last : Char} (low : last.toNat < 0xd800) :
    MatchesClass (between first last) fun c => decide (first ≤ c ∧ c ≤ last) := by
  intro text
  simp only [between, mem_sum_iff, List.mem_map, List.mem_range'_1, decide_eq_true_eq]
  constructor
  · rintro ⟨_, ⟨code, ⟨above, below⟩, rfl⟩, matched⟩
    have same : (Char.ofNat code).toNat = code := toNat_ofNat (by omega)
    refine ⟨Char.ofNat code, ⟨?_, ?_⟩, matched⟩
    · show first.toNat ≤ (Char.ofNat code).toNat
      omega
    · show (Char.ofNat code).toNat ≤ last.toNat
      omega
  · rintro ⟨c, ⟨above, below⟩, rfl⟩
    have above : first.toNat ≤ c.toNat := above
    have below : c.toNat ≤ last.toNat := below
    refine ⟨char c, ⟨c.toNat, ⟨above, by omega⟩, by rw [Char.ofNat_toNat]⟩, rfl⟩

end Classes

theorem matchesClass_digit : MatchesClass (between '0' '9') Char.isDigit :=
  (matchesClass_between (by decide)).congr fun c => by
    simp [Char.isDigit, Char.le_def]

theorem matchesClass_nameStart : MatchesClass nameStart isNameStart := by
  have lower : MatchesClass (between 'a' 'z') _ := matchesClass_between (by decide)
  have upper : MatchesClass (between 'A' 'Z') _ := matchesClass_between (by decide)
  refine ((lower.add upper).add (matchesClass_char '_')).congr fun c => ?_
  unfold isNameStart Char.isAlpha Char.isUpper Char.isLower
  simp [Char.le_def, Bool.or_comm]

private theorem matchesClass_namePart : MatchesClass (nameStart + between '0' '9') isNamePart := by
  refine (matchesClass_nameStart.add matchesClass_digit).congr fun c => ?_
  simp only [isNameStart, isNamePart, Char.isAlphanum]
  ac_rfl

/-!
## Words
-/

variable {text : List Char}

private theorem mem_mul_iff {first second : RegularExpression Char} :
    text ∈ (first * second).matches' ↔
      ∃ front ∈ first.matches', ∃ back ∈ second.matches', front ++ back = text :=
  Language.mem_mul

theorem mem_digits_iff :
    text ∈ digits.matches' ↔ text ≠ [] ∧ ∀ c ∈ text, c.isDigit = true :=
  matchesClass_digit.mem_repeated_iff

theorem mem_name_iff :
    text ∈ name.matches' ↔ ∃ first rest, text = first :: rest ∧ isNameStart first = true ∧
      ∀ c ∈ rest, isNamePart c = true := by
  rw [name, mem_mul_iff]
  constructor
  · rintro ⟨front, frontMatches, rest, restMatches, rfl⟩
    obtain ⟨first, start, rfl⟩ := (matchesClass_nameStart front).mp frontMatches
    exact ⟨first, rest, rfl, start, matchesClass_namePart.mem_star_iff.mp restMatches⟩
  · rintro ⟨first, rest, rfl, start, parts⟩
    exact ⟨[first], (matchesClass_nameStart _).mpr ⟨first, start, rfl⟩, rest,
      matchesClass_namePart.mem_star_iff.mpr parts, rfl⟩

theorem mem_fraction_iff :
    text ∈ fraction.matches' ↔
      ∃ places, places ≠ [] ∧ (∀ c ∈ places, c.isDigit = true) ∧ text = '.' :: places := by
  rw [fraction, mem_mul_iff]
  constructor
  · rintro ⟨point, pointMatches, places, placesMatch, rfl⟩
    obtain ⟨nonempty, inside⟩ := mem_digits_iff.mp placesMatch
    rw [(mem_char_iff '.').mp pointMatches]
    exact ⟨places, nonempty, inside, rfl⟩
  · rintro ⟨places, nonempty, inside, rfl⟩
    exact ⟨['.'], rfl, places, mem_digits_iff.mpr ⟨nonempty, inside⟩, rfl⟩

theorem mem_sign_iff :
    text ∈ (optional (char '+' + char '-')).matches' ↔
      ∃ sign : Option Sign, text = (sign.map Sign.char).toList := by
  rw [mem_optional_iff, RegularExpression.matches'_add, Language.mem_add, mem_char_iff,
    mem_char_iff]
  constructor
  · rintro ((rfl | rfl) | rfl)
    · exact ⟨some .plus, rfl⟩
    · exact ⟨some .minus, rfl⟩
    · exact ⟨none, rfl⟩
  · rintro ⟨(_ | _ | _), rfl⟩
    · exact .inr rfl
    · exact .inl (.inl rfl)
    · exact .inl (.inr rfl)

theorem mem_exponent_iff :
    text ∈ exponent.matches' ↔ ∃ found : Exponent, found.IsProper ∧ text = found.spelling := by
  rw [exponent, mem_mul_iff]
  constructor
  · rintro ⟨front, frontMatches, back, backMatches, rfl⟩
    obtain ⟨signText, signMatches, digits, digitsMatch, rfl⟩ := mem_mul_iff.mp backMatches
    obtain ⟨sign, rfl⟩ := mem_sign_iff.mp signMatches
    obtain ⟨nonempty, inside⟩ := mem_digits_iff.mp digitsMatch
    rcases frontMatches with rfl | rfl
    · exact ⟨⟨'e', sign, digits⟩, ⟨.inl rfl, nonempty, inside⟩, rfl⟩
    · exact ⟨⟨'E', sign, digits⟩, ⟨.inr rfl, nonempty, inside⟩, rfl⟩
  · rintro ⟨⟨mark, sign, digits⟩, ⟨isMark, nonempty, inside⟩, rfl⟩
    refine ⟨[mark], ?_, (sign.map Sign.char).toList ++ digits, ?_, rfl⟩
    · rcases isMark with rfl | rfl
      · exact .inl rfl
      · exact .inr rfl
    · exact mem_mul_iff.mpr ⟨_, mem_sign_iff.mpr ⟨sign, rfl⟩, _,
        mem_digits_iff.mpr ⟨nonempty, inside⟩, rfl⟩

theorem mem_optional_exponent_iff :
    text ∈ (optional exponent).matches' ↔ ∃ found : Option Exponent,
      (∀ exponent ∈ found, exponent.IsProper) ∧ text = Numeral.exponentSpelling found := by
  rw [mem_optional_iff, mem_exponent_iff]
  constructor
  · rintro (⟨found, proper, rfl⟩ | rfl)
    · refine ⟨some found, ?_, rfl⟩
      rintro _ ⟨⟩
      exact proper
    · exact ⟨none, nofun, rfl⟩
  · rintro ⟨(_ | found), proper, rfl⟩
    · exact .inr rfl
    · exact .inl ⟨found, proper found rfl, rfl⟩

private theorem mem_optional_fraction_iff :
    text ∈ (optional fraction).matches' ↔ ∃ found : Option (List Char),
      (∀ places ∈ found, places ≠ [] ∧ ∀ c ∈ places, c.isDigit = true) ∧
        text = Numeral.fractionSpelling found := by
  rw [mem_optional_iff, mem_fraction_iff]
  constructor
  · rintro (⟨places, nonempty, inside, rfl⟩ | rfl)
    · refine ⟨some places, ?_, rfl⟩
      rintro _ ⟨⟩
      exact ⟨nonempty, inside⟩
    · exact ⟨none, nofun, rfl⟩
  · rintro ⟨(_ | places), proper, rfl⟩
    · exact .inr rfl
    · obtain ⟨nonempty, inside⟩ := proper places rfl
      exact .inl ⟨places, nonempty, inside, rfl⟩

theorem mem_number_iff :
    text ∈ number.matches' ↔
      ∃ numeral : Numeral, numeral.IsProper ∧ numeral.whole ≠ [] ∧ text = numeral.spelling := by
  rw [number, mem_mul_iff]
  constructor
  · rintro ⟨whole, wholeMatches, back, backMatches, rfl⟩
    obtain ⟨front, frontMatches, rest, restMatches, rfl⟩ := mem_mul_iff.mp backMatches
    obtain ⟨nonempty, inside⟩ := mem_digits_iff.mp wholeMatches
    obtain ⟨fraction, fractionProper, rfl⟩ := mem_optional_fraction_iff.mp frontMatches
    obtain ⟨exponent, exponentProper, rfl⟩ := mem_optional_exponent_iff.mp restMatches
    exact ⟨⟨whole, fraction, exponent⟩, ⟨inside, fractionProper, exponentProper, .inl nonempty⟩,
      nonempty, (Numeral.spelling_eq _ _ _).symm⟩
  · rintro ⟨⟨whole, fraction, exponent⟩, proper, nonempty, rfl⟩
    have fractionMatches := mem_optional_fraction_iff.mpr ⟨fraction, proper.fraction, rfl⟩
    have exponentMatches := mem_optional_exponent_iff.mpr ⟨exponent, proper.exponent, rfl⟩
    exact ⟨whole, mem_digits_iff.mpr ⟨nonempty, proper.whole⟩, _,
      mem_mul_iff.mpr ⟨_, fractionMatches, _, exponentMatches, rfl⟩,
      (Numeral.spelling_eq _ _ _).symm⟩

theorem mem_pointNumber_iff :
    text ∈ pointNumber.matches' ↔
      ∃ numeral : Numeral, numeral.IsProper ∧ numeral.whole = [] ∧ text = numeral.spelling := by
  rw [pointNumber, mem_mul_iff]
  constructor
  · rintro ⟨front, frontMatches, rest, restMatches, rfl⟩
    obtain ⟨places, nonempty, inside, rfl⟩ := mem_fraction_iff.mp frontMatches
    obtain ⟨exponent, exponentProper, rfl⟩ := mem_optional_exponent_iff.mp restMatches
    refine ⟨⟨[], some places, exponent⟩, ⟨nofun, ?_, exponentProper, .inr nofun⟩, rfl,
      (Numeral.spelling_eq [] (some places) exponent).symm⟩
    rintro _ ⟨⟩
    exact ⟨nonempty, inside⟩
  · rintro ⟨⟨whole, fraction, exponent⟩, proper, rfl, rfl⟩
    cases fraction with
    | none => exact absurd rfl (proper.nonempty.resolve_left (· rfl))
    | some places =>
        obtain ⟨nonempty, inside⟩ := proper.fraction places rfl
        exact ⟨_, mem_fraction_iff.mpr ⟨places, nonempty, inside, rfl⟩, _,
          mem_optional_exponent_iff.mpr ⟨exponent, proper.exponent, rfl⟩,
          (Numeral.spelling_eq [] (some places) exponent).symm⟩

theorem exists_numeral (matched : text ∈ number.matches' ∨ text ∈ pointNumber.matches') :
    ∃ numeral : Numeral, numeral.IsProper ∧ numeral.spelling = text := by
  rcases matched with matched | matched
  · obtain ⟨numeral, proper, -, rfl⟩ := mem_number_iff.mp matched
    exact ⟨numeral, proper, rfl⟩
  · obtain ⟨numeral, proper, -, rfl⟩ := mem_pointNumber_iff.mp matched
    exact ⟨numeral, proper, rfl⟩

end Pattern

/-!
## Lexemes and their tokens
-/

/-- Every spelling of a numeral matches one of the patterns of numbers. -/
theorem isLexeme_spelling {numeral : Numeral} (proper : numeral.IsProper) :
    IsLexeme numeral.spelling := by
  by_cases begins : numeral.whole = []
  · exact .pointNumber (Pattern.mem_pointNumber_iff.mpr ⟨numeral, proper, begins, rfl⟩)
  · exact .number (Pattern.mem_number_iff.mpr ⟨numeral, proper, begins, rfl⟩)

theorem isLexeme_iff_exists_standsFor {text : List Char} :
    IsLexeme text ↔ ∃ token, StandsFor text token := by
  constructor
  · rintro (matched | matched | matched | matched)
    · obtain ⟨numeral, proper, rfl⟩ := Pattern.exists_numeral (.inl matched)
      exact ⟨_, .number proper⟩
    · obtain ⟨numeral, proper, rfl⟩ := Pattern.exists_numeral (.inr matched)
      exact ⟨_, .number proper⟩
    · exact ⟨_, .name matched⟩
    · exact ⟨_, .symbol matched⟩
  · rintro ⟨token, proper | matched | matched⟩
    · exact isLexeme_spelling proper
    · exact .name matched
    · exact .symbol matched

end Calculator
