import Calculator.Decimal

/-!
# Doubles to the hundredth

The exact value of a double, rounded once to two places with ties to the even hundredth, is how
values are shown.
-/

set_option autoImplicit false

namespace Calculator

/-- The number of hundredths nearest to `mantissa * 2 ^ shift` units of `2 ^ -1074`. -/
def hundredths (mantissa shift : Nat) : Decimal :=
  { coefficient := roundHalfEven (100 * mantissa <<< shift) (1 <<< 1074), exponent := -2 }

def hundredthsText (x : Float) : String :=
  (Binary64.ofFloat x).text hundredths

end Calculator
