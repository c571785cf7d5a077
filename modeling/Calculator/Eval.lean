import Calculator.Builtin

/-!
# Evaluation

Operands are evaluated from left to right, a callee before its arguments, and all before the
operation itself. The first failure ends the evaluation and is its result.
-/

set_option autoImplicit false

namespace Calculator

def Sign.eval (sign : Sign) : Value → Evaluation Value
  | .number value => .ok (.number (sign.apply value))
  | operand => .error (.unknownSign sign operand.type)

namespace Operator

/-- An operator between two numbers. Only a divisor that equals zero is refused. -/
def evalNumbers (operator : Operator) (left right : Float) : Evaluation Value :=
  match operator with
  | .add => .ok (.number (left + right))
  | .sub => .ok (.number (left - right))
  | .mul => .ok (.number (left * right))
  | .div => if right == 0 then .error .divisionByZero else .ok (.number (left / right))
  | .pow => .ok (.number (left.pow right))

def eval (operator : Operator) (left right : Value) : Evaluation Value :=
  match left, right with
  | .number x, .number y => operator.evalNumbers x y
  | _, _ =>
      if left.type = right.type then
        .error (.unknownOperator left.type operator right.type)
      else
        .error (.typeMismatch left.type operator right.type)

end Operator

def Value.apply (function : Value) (arguments : List Value) : Evaluation Value :=
  match function with
  | .builtin function => function.apply arguments
  | _ => .error (.notCallable function.type)

def evalIdentifier (name : String) : Evaluation Value :=
  match Builtin.ofName? name with
  | some function => .ok (.builtin function)
  | none => .error (.unknownIdentifier name)

namespace Expr

mutual

/-- The value of an expression, or the first failure on the way to it. -/
def eval : Expr → Evaluation Value
  | .number value => .ok (.number value)
  | .identifier name => evalIdentifier name
  | .signed sign operand => do
      let operand ← operand.eval
      sign.eval operand
  | .binary left operator right => do
      let left ← left.eval
      let right ← right.eval
      operator.eval left right
  | .call function arguments => do
      let function ← function.eval
      let arguments ← evalArguments [] arguments
      function.apply arguments

/-- The values of arguments behind those already evaluated in reverse. -/
def evalArguments (evaluated : List Value) : List Expr → Evaluation (List Value)
  | [] => .ok evaluated.reverse
  | argument :: arguments => do
      let value ← argument.eval
      evalArguments (value :: evaluated) arguments

end

def value (expr : Expr) : Value :=
  .ofEvaluation expr.eval

end Expr

def Value.call (function : Value) (arguments : List Expr) : Evaluation Value := do
  let arguments ← Expr.evalArguments [] arguments
  function.apply arguments

namespace Program

/-- The value of the first statement that fails, else of the last; `last` if there is none. -/
def resultFrom (last : Option Value) : List Expr → Option Value
  | [] => last
  | statement :: statements =>
      match statement.value with
      | .error cause => some (.error cause)
      | value => resultFrom (some value) statements

/-- What a program evaluates to. Nothing behind the first failure is evaluated, and a program
without statements has no value. -/
def result (program : Program) : Option Value :=
  resultFrom none program.statements

end Program

end Calculator
