import Calculator.Binary64

/-!
# Decimal numbers

A decimal is a coefficient and a power of ten. It is written positionally, never with an exponent,
and read as the nearest double. Doubles in turn become decimals in two ways, in
`Calculator.Decimal.Shortest` and `Calculator.Decimal.Hundredths`.
-/

set_option autoImplicit false

namespace Calculator

/-- The number `coefficient * 10 ^ exponent`. -/
structure Decimal where
  coefficient : Nat
  exponent : Int
deriving DecidableEq, Repr

namespace Decimal

/-- The value as a quotient: what stands above the line. -/
def numerator (number : Decimal) : Nat :=
  number.coefficient * Nat.pow 10 number.exponent.toNat

/-- The value as a quotient: what stands below the line. -/
def denominator (number : Decimal) : Nat :=
  Nat.pow 10 (-number.exponent).toNat

/-- A whole part without superfluous zeros, and after a point as many digits as the exponent has
places; none and no point if the number is whole. -/
def text (number : Decimal) : String :=
  match number.exponent with
  | .ofNat zeros => (number.coefficient * Nat.pow 10 zeros).repr
  | .negSucc last =>
      let places := last + 1
      let fraction := Nat.toDigits 10 (number.coefficient % Nat.pow 10 places)
      (number.coefficient / Nat.pow 10 places).repr ++ "." ++
        String.ofList (fraction.leftpad places '0')

/-- The double nearest to the number.

A power of ten is at least as far from one as the same power of eight. So the width of the
coefficient and the exponent settle what is too large for a double, or too small to be more than
zero, before a large power of ten is raised. -/
def toFloat (number : Decimal) : Float :=
  let magnitude : Int := number.coefficient.log2 + 3 * number.exponent
  if number.coefficient = 0 then
    nearest 0 1
  else if 0 ≤ number.exponent ∧ 1024 ≤ magnitude then
    infinity
  else if magnitude ≤ -1076 then
    nearest 0 1
  else
    nearest number.numerator number.denominator

end Decimal

/-- The text of a double whose finite magnitudes `decimal` turns into decimals. The sign of a zero
is kept, and a non-number has no sign. -/
def Binary64.text (decimal : Nat → Nat → Decimal) : Binary64 → String
  | .nan => "NaN"
  | .infinite negative => (if negative then "-" else "") ++ "inf"
  | .finite negative mantissa shift =>
      (if negative then "-" else "") ++ (decimal mantissa shift).text

end Calculator
