import Calculator.Decimal.Shortest

/-!
# Tokens

The smallest meaningful pieces of a text. A token keeps the value of what it was read from and not
its spelling; its own text writes a number with the fewest digits.
-/

set_option autoImplicit false

namespace Calculator

/-- A piece of a text. Tokens compare as their payloads do, so zeros of either sign are equal and a
non-number differs from itself. -/
inductive Token where
  | number (value : Float)
  | identifier (name : String)
  | plus
  | minus
  | star
  | starStar
  | slash
  | leftParen
  | rightParen
  | comma
  /-- A character that begins no other token. -/
  | illegal (text : String)
  | endOfInput
deriving BEq, Repr

namespace Token

def text : Token → String
  | .number value => shortestText value
  | .identifier name => name
  | .plus => "+"
  | .minus => "-"
  | .star => "*"
  | .starStar => "**"
  | .slash => "/"
  | .leftParen => "("
  | .rightParen => ")"
  | .comma => ","
  | .illegal text => text
  | .endOfInput => "EOF"

end Token

end Calculator
