import Calculator.Decimal.Shortest
import Calculator.Sign

/-!
# Expressions

The tree of an arithmetic expression, its height, its text and its comparison. The text puts
every operation into parentheses, so that it shows how the tree was put together.

Lists of arguments can be as long as a text allows, so functions on them keep what they have done
in an accumulator.
-/

set_option autoImplicit false

namespace Calculator

inductive Operator where
  | add
  | sub
  | mul
  | div
  | pow
deriving DecidableEq, Repr

def Operator.text : Operator → String
  | .add => "+"
  | .sub => "-"
  | .mul => "*"
  | .div => "/"
  | .pow => "**"

/-- An arithmetic expression. What is called can be any expression; a name alone stands for a
function. -/
inductive Expr where
  | number (value : Float)
  | identifier (name : String)
  | signed (sign : Sign) (operand : Expr)
  | binary (left : Expr) (operator : Operator) (right : Expr)
  | call (function : Expr) (arguments : List Expr)

namespace Expr

mutual

/-- The number of nodes on the longest way down to a leaf. -/
def height : Expr → Nat
  | .number _ => 1
  | .identifier _ => 1
  | .signed _ operand => operand.height + 1
  | .binary left _ right => max left.height right.height + 1
  | .call function arguments => max function.height (tallest 0 arguments) + 1

/-- The greatest of `height` and the heights of the arguments. -/
def tallest (height : Nat) : List Expr → Nat
  | [] => height
  | argument :: arguments => tallest (max height argument.height) arguments

end

mutual

/-- The expression with parentheses around every operation. A call puts them around its arguments
only. -/
def text : Expr → String
  | .number value => shortestText value
  | .identifier name => name
  | .signed sign operand => "(" ++ sign.text ++ operand.text ++ ")"
  | .binary left operator right =>
      "(" ++ left.text ++ " " ++ operator.text ++ " " ++ right.text ++ ")"
  | .call function arguments => function.text ++ "(" ++ argumentsText arguments ++ ")"

def argumentsText : List Expr → String
  | [] => ""
  | argument :: arguments => appendArguments argument.text arguments

/-- What is written already, followed by further arguments. -/
def appendArguments (written : String) : List Expr → String
  | [] => written
  | argument :: arguments => appendArguments (written ++ ", " ++ argument.text) arguments

end

mutual

/-- Whether two trees have the same shape, names and operators, and numbers that compare equal. -/
def beq : Expr → Expr → Bool
  | .number a, .number b => a == b
  | .identifier a, .identifier b => a == b
  | .signed sign a, .signed sign' b => sign == sign' && beq a b
  | .binary left operator right, .binary left' operator' right' =>
      operator == operator' && beq left left' && beq right right'
  | .call function arguments, .call function' arguments' =>
      beq function function' && beqArguments arguments arguments'
  | _, _ => false

def beqArguments : List Expr → List Expr → Bool
  | [], [] => true
  | a :: rest, b :: rest' => beq a b && beqArguments rest rest'
  | _, _ => false

end

instance : BEq Expr := ⟨beq⟩

end Expr

/-- The expressions of a text, in order. -/
structure Program where
  statements : List Expr
deriving BEq

/-- The texts of all statements with nothing between them. -/
def Program.text (program : Program) : String :=
  String.join (program.statements.map Expr.text)

end Calculator
