import Calculator.Expr
import Calculator.Token

/-!
# How tightly tokens bind

The levels of precedence, the level of each token between operands, and the level at which the
operand behind an operator is read.
-/

set_option autoImplicit false

namespace Calculator

/-- The levels, from the loosest to the tightest. -/
inductive Precedence where
  /-- Whatever does not continue an expression. -/
  | lowest
  | sum
  | product
  | exponent
  /-- A sign in front of its operand. -/
  | sign
  | call
deriving DecidableEq, Repr

namespace Precedence

def rank : Precedence → Nat
  | .lowest => 0
  | .sum => 1
  | .product => 2
  | .exponent => 3
  | .sign => 4
  | .call => 5

instance : LT Precedence := ⟨fun loose tight => loose.rank < tight.rank⟩

instance : LE Precedence := ⟨fun loose tight => loose.rank ≤ tight.rank⟩

instance : DecidableLT Precedence := fun loose tight => Nat.decLt loose.rank tight.rank

instance : DecidableLE Precedence := fun loose tight => Nat.decLe loose.rank tight.rank

instance : Ord Precedence := ⟨fun a b => compare a.rank b.rank⟩

/-- How tightly a token between two operands binds. A parenthesis there begins a call. -/
def of : Token → Precedence
  | .plus | .minus => .sum
  | .star | .slash => .product
  | .starStar => .exponent
  | .leftParen => .call
  | _ => .lowest

end Precedence

namespace Operator

def ofToken? : Token → Option Operator
  | .plus => some .add
  | .minus => some .sub
  | .star => some .mul
  | .slash => some .div
  | .starStar => some .pow
  | _ => none

/-- The operand on the right holds what binds tighter than this level. It is the operator's own
level, so that equal operators group to the left, but for powers the level below, so that they
group to the right. -/
def rightPrecedence : Operator → Precedence
  | .add | .sub => .sum
  | .mul | .div | .pow => .product

end Operator

end Calculator
