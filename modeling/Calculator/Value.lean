import Calculator.Decimal.Hundredths
import Calculator.EvalError

/-!
# Values

What expressions evaluate to: numbers, the functions that names stand for, and failures. A failure
as a value is what an evaluation is reported by; the functions here also take it as an operand,
where it is one more type that is not a number.
-/

set_option autoImplicit false

namespace Calculator

inductive Builtin where
  | cos
  | acos
  | sin
  | asin
  | tan
  | atan
  | exp
  | log
  | abs
  | sqrt
  | pow
deriving DecidableEq, Repr

inductive Value where
  | number (value : Float)
  | builtin (function : Builtin)
  | error (cause : EvalError)
deriving BEq, Repr

/-- The result of a step of evaluation. A failed step gives its cause instead of a value. -/
abbrev Evaluation := Except EvalError

namespace Value

def type : Value → ValueType
  | .number _ => .number
  | .builtin _ => .builtin
  | .error _ => .error

def isError : Value → Bool
  | .error _ => true
  | _ => false

def toEvaluation : Value → Evaluation Value
  | .error cause => .error cause
  | value => .ok value

def ofEvaluation : Evaluation Value → Value
  | .ok value => value
  | .error cause => .error cause

/-- How a value is shown: a number to the hundredth. -/
def text : Value → String
  | .number value => hundredthsText value
  | .builtin _ => "Builtin Function"
  | .error cause => "ERROR: " ++ cause.message

end Value

end Calculator
