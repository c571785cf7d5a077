/-!
# Signs

The plus and minus that stand before a number: in front of an operand, and in the exponent of a
numeral.
-/

set_option autoImplicit false

namespace Calculator

inductive Sign where
  | plus
  | minus
deriving DecidableEq, Repr

namespace Sign

def char : Sign → Char
  | .plus => '+'
  | .minus => '-'

def text (sign : Sign) : String :=
  String.singleton sign.char

def apply : Sign → Float → Float
  | .plus, value => value
  | .minus, value => -value

end Sign

end Calculator
