import Calculator.Decimal
import Calculator.Sign

/-!
# Numerals

A numeral is the written form of a number: a whole part, a fraction or both, and perhaps an
exponent. Its parts keep the digits as written, so a numeral also says how it is spelled.
`Numeral.scan?` finds the longest numeral that a text begins with.

The digits of an exponent count from the left, until they make a power of ten so great that only a
numeral with tens of thousands of digits could make up for it. The rest of them are spelling only.
-/

set_option autoImplicit false

namespace Calculator

/-- The exponent of a numeral: `e` or `E`, perhaps a sign, and digits. -/
structure Exponent where
  mark : Char
  sign : Option Sign
  digits : List Char
deriving DecidableEq, Repr

/-- The parts of a numeral. Without a fraction there is no point. -/
structure Numeral where
  whole : List Char
  fraction : Option (List Char)
  exponent : Option Exponent
deriving DecidableEq, Repr

namespace Exponent

def spelling (exponent : Exponent) : List Char :=
  exponent.mark :: (exponent.sign.map Sign.char).toList ++ exponent.digits

/-- Once the digits of an exponent make a power of at least this size, no further one counts. -/
def limit : Nat := 65536

/-- The power that digits make behind those that make `power`. -/
def powerFrom (power : Nat) : (digits : List Char) → Nat
  | [] => power
  | digit :: digits =>
      if power < limit then powerFrom (Nat.ofDigitChars 10 [digit] power) digits else power

def value (exponent : Exponent) : Int :=
  let power := powerFrom 0 exponent.digits
  match exponent.sign with
  | some .minus => -power
  | _ => power

def scanSign : List Char → Option Sign × List Char
  | '+' :: rest => (some .plus, rest)
  | '-' :: rest => (some .minus, rest)
  | text => (none, text)

/-- The exponent that a text begins with, and what follows it. A mark and a sign without a digit
after them are no exponent. -/
def scan? : List Char → Option (Exponent × List Char)
  | [] => none
  | mark :: rest =>
      let (sign, unsigned) := scanSign rest
      let digits := unsigned.takeWhile Char.isDigit
      if (mark = 'e' ∨ mark = 'E') ∧ digits ≠ [] then
        some ({ mark, sign, digits }, unsigned.dropWhile Char.isDigit)
      else
        none

theorem append_of_scanSign {text rest : List Char} {sign : Option Sign}
    (scanned : scanSign text = (sign, rest)) :
    text = (sign.map Sign.char).toList ++ rest := by
  unfold scanSign at scanned
  split at scanned <;> cases scanned <;> rfl

theorem append_of_scan? {text rest : List Char} {exponent : Exponent}
    (scanned : scan? text = some (exponent, rest)) : text = exponent.spelling ++ rest := by
  cases text with
  | nil => cases scanned
  | cons mark tail =>
      simp only [scan?] at scanned
      split at scanned
      · cases scanned
        simp only [spelling, List.cons_append, List.append_assoc,
          List.takeWhile_append_dropWhile, List.cons.injEq, true_and]
        exact append_of_scanSign rfl
      · cases scanned

end Exponent

namespace Numeral

def spelling (numeral : Numeral) : List Char :=
  numeral.whole ++
    (match numeral.fraction with
      | some digits => '.' :: digits
      | none => []) ++
    (match numeral.exponent with
      | some exponent => exponent.spelling
      | none => [])

/-- What the numeral stands for: all digits as one coefficient, the exponent lowered by the number
of digits after the point. -/
def decimal (numeral : Numeral) : Decimal :=
  let fraction := numeral.fraction.getD []
  let power := (numeral.exponent.map Exponent.value).getD 0
  { coefficient := Nat.ofDigitChars 10 (numeral.whole ++ fraction) 0
    exponent := power - fraction.length }

def toFloat (numeral : Numeral) : Float :=
  numeral.decimal.toFloat

/-- The digits of the fraction that a text begins with, and what follows them. A point without a
digit after it is no fraction. -/
def scanFraction? : List Char → Option (List Char × List Char)
  | '.' :: rest =>
      let digits := rest.takeWhile Char.isDigit
      if digits ≠ [] then some (digits, rest.dropWhile Char.isDigit) else none
  | _ => none

/-- The numeral of a whole part, a fraction and the exponent that a text begins with, if any, and
what follows it. -/
def withExponent (whole : List Char) (fraction : Option (List Char)) (text : List Char) :
    Numeral × List Char :=
  match Exponent.scan? text with
  | some (exponent, rest) => ({ whole, fraction, exponent := some exponent }, rest)
  | none => ({ whole, fraction, exponent := none }, text)

/-- The longest numeral that a text begins with, and what follows it. There is none if the text
begins neither with a digit nor with a point and a digit. -/
def scan? (text : List Char) : Option (Numeral × List Char) :=
  let whole := text.takeWhile Char.isDigit
  let afterWhole := text.dropWhile Char.isDigit
  match scanFraction? afterWhole with
  | some (digits, rest) => some (withExponent whole (some digits) rest)
  | none => if whole ≠ [] then some (withExponent whole none afterWhole) else none

theorem append_of_scanFraction? {text digits rest : List Char}
    (scanned : scanFraction? text = some (digits, rest)) : text = '.' :: digits ++ rest := by
  unfold scanFraction? at scanned
  split at scanned
  · dsimp only at scanned
    split at scanned
    · cases scanned
      simp
    · cases scanned
  · cases scanned

/-- The parts given, the exponent found and what follows are the parts given and the whole text. -/
theorem spelling_withExponent (whole : List Char) (fraction : Option (List Char))
    (text : List Char) :
    (withExponent whole fraction text).1.spelling ++ (withExponent whole fraction text).2 =
      spelling { whole, fraction, exponent := none } ++ text := by
  unfold withExponent
  split
  · rename_i exponent rest scanned
    simp [spelling, Exponent.append_of_scan? scanned]
  · rfl

theorem append_of_scan? {text rest : List Char} {numeral : Numeral}
    (scanned : scan? text = some (numeral, rest)) : text = numeral.spelling ++ rest := by
  have parts := List.takeWhile_append_dropWhile (p := Char.isDigit) (l := text)
  unfold scan? at scanned
  dsimp only at scanned
  split at scanned
  · rename_i digits after fraction
    have found := Option.some.inj scanned
    have spelled := spelling_withExponent (text.takeWhile Char.isDigit) (some digits) after
    rw [found] at spelled
    rw [spelled]
    simpa [spelling, append_of_scanFraction? fraction] using parts.symm
  · split at scanned
    · have found := Option.some.inj scanned
      have spelled := spelling_withExponent (text.takeWhile Char.isDigit) none
        (text.dropWhile Char.isDigit)
      rw [found] at spelled
      rw [spelled]
      simp [spelling]
    · cases scanned

end Numeral

end Calculator
