import Calculator.Parser.Expression

/-!
# Parsing a whole text

A text is a sequence of expressions. One that cannot be read is recorded as a diagnostic and left
out, and parsing goes on behind the token at which it failed, so one text can have many
diagnostics.
-/

set_option autoImplicit false

namespace Calculator

namespace Parser

/-- Reads one expression and moves behind the token that reading stopped at. A failure is
recorded. -/
def statement (parser : Parser) : Option Expr × Parser :=
  match parseExpression .lowest parser with
  | .ok expr after => (some expr, after.advance)
  | .error error after => (none, (after.record error).advance)

/-- Reads expressions up to the end of input, behind those already read in reverse. One token of
`bound` is spent on each. -/
def programWithin : (bound : List Token) → (read : List Expr) → Parser → Program × Parser
  | [], read, parser => ({ statements := read.reverse }, parser)
  | _ :: bound, read, parser =>
      match parser.current with
      | .endOfInput => ({ statements := read.reverse }, parser)
      | _ =>
          match parser.statement with
          | (some expr, after) => programWithin bound (expr :: read) after
          | (none, after) => programWithin bound read after

def program (parser : Parser) : Program × Parser :=
  programWithin parser.tokens [] parser

end Parser

end Calculator
