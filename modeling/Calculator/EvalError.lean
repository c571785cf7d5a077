import Calculator.Expr

/-!
# Why an evaluation fails

The types that diagnostics name, the causes of failure, and the wording of each.
-/

set_option autoImplicit false

namespace Calculator

inductive ValueType where
  | number
  | builtin
  | error
deriving DecidableEq, Repr

def ValueType.text : ValueType → String
  | .number => "NUMBER"
  | .builtin => "BUILTIN"
  | .error => "ERROR"

/-- Why an expression has no value. -/
inductive EvalError where
  /-- A name that no function has. -/
  | unknownIdentifier (name : String)
  /-- A sign in front of something other than a number. -/
  | unknownSign (sign : Sign) (operand : ValueType)
  /-- An operator between values of one type that is not the type of numbers. -/
  | unknownOperator (left : ValueType) (operator : Operator) (right : ValueType)
  /-- An operator between values of different types. -/
  | typeMismatch (left : ValueType) (operator : Operator) (right : ValueType)
  | divisionByZero
  /-- A function with too few or too many arguments. -/
  | argumentCount (function : String) (expected found : Nat)
  /-- A function with arguments that are not all numbers. -/
  | expectedNumbers (function : String) (found : List ValueType)
  /-- A call of something other than a function. -/
  | notCallable (found : ValueType)
deriving DecidableEq, Repr

def EvalError.message : EvalError → String
  | .unknownIdentifier name => "unexpected identifier: " ++ name
  | .unknownSign sign operand => "unknown operator: " ++ sign.text ++ operand.text
  | .unknownOperator left operator right =>
      "unknown operator: " ++ left.text ++ " " ++ operator.text ++ " " ++ right.text
  | .typeMismatch left operator right =>
      "type mismatch: " ++ left.text ++ " " ++ operator.text ++ " " ++ right.text
  | .divisionByZero => "division by zero"
  | .argumentCount function expected found =>
      function ++ " accepts " ++ expected.repr ++
        (if expected = 1 then " argument. got=" else " arguments. got=") ++ found.repr
  | .expectedNumbers function found =>
      function ++ " only accepts numbers. got=" ++
        " and ".intercalate (found.map ValueType.text)
  | .notCallable found => "not callable: " ++ found.text

end Calculator
