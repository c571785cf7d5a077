import Calculator.Value

/-!
# Built-in functions

The name, the numeric function and the number of arguments of every built-in function, and what it
gives for a list of values: the count of arguments is checked first, then that all are numbers.
-/

set_option autoImplicit false

namespace Calculator

inductive NumericFunction where
  | unary (apply : Float → Float)
  | binary (apply : Float → Float → Float)

namespace Builtin

/-- Every function, in the order of the list that names them. -/
def all : List Builtin :=
  [cos, acos, sin, asin, tan, atan, exp, log, abs, sqrt, pow]

def name : Builtin → String
  | cos => "cos"
  | acos => "acos"
  | sin => "sin"
  | asin => "asin"
  | tan => "tan"
  | atan => "atan"
  | exp => "exp"
  | log => "log"
  | abs => "abs"
  | sqrt => "sqrt"
  | pow => "pow"

def ofName? (name : String) : Option Builtin :=
  all.find? fun function => function.name == name

/-- What a function computes. The logarithm is the natural one. -/
def numericFunction : Builtin → NumericFunction
  | cos => .unary Float.cos
  | acos => .unary Float.acos
  | sin => .unary Float.sin
  | asin => .unary Float.asin
  | tan => .unary Float.tan
  | atan => .unary Float.atan
  | exp => .unary Float.exp
  | log => .unary Float.log
  | abs => .unary Float.abs
  | sqrt => .unary Float.sqrt
  | pow => .binary Float.pow

def arity (function : Builtin) : Nat :=
  match function.numericFunction with
  | .unary _ => 1
  | .binary _ => 2

def apply (function : Builtin) (arguments : List Value) : Evaluation Value :=
  match function.numericFunction, arguments with
  | .unary compute, [.number x] => .ok (.number (compute x))
  | .binary compute, [.number x, .number y] => .ok (.number (compute x y))
  | _, _ =>
      if arguments.length = function.arity then
        .error (.expectedNumbers function.name (arguments.map Value.type))
      else
        .error (.argumentCount function.name function.arity arguments.length)

/-- The value of a function at a list of values, failures included. -/
def call (function : Builtin) (arguments : List Value) : Value :=
  .ofEvaluation (function.apply arguments)

/-- No two functions share a name. -/
theorem ofName?_name (function : Builtin) : ofName? function.name = some function := by
  cases function <;> decide

end Builtin

end Calculator
