import Calculator.ParseError
import Calculator.Precedence
import Calculator.Token.Lexer

/-!
# The state of a parser

A parser stands at a token, the current one, and sees one further, the lookahead. Behind the last
token both are the end of input for ever. It also counts how many expressions it is inside of and
keeps the diagnostics it has recorded.

Parsing steps change this state, make nodes of the tree and may fail. A failed step leaves the state
where it failed, so that parsing can go on behind the failure. They are written over any monad with
such a state, such nodes and such failures, and run in the plain one, `ParserM`.
-/

set_option autoImplicit false

namespace Calculator

/-- The greatest depth of expressions in expressions while parsing, and the greatest height of a
tree that parsing builds. -/
def maxNesting : Nat := 256

/-- A position among tokens, the depth of expressions begun, and the recorded diagnostics. -/
structure Parser where
  /-- The tokens from the current one on. -/
  tokens : List Token
  depth : Nat := 0
  errors : Array ParseError := #[]

/-- A parsing step: it changes the parser, also when it fails. -/
abbrev ParserM := EStateM ParseError Parser

namespace Parser

def ofSource (source : String) : Parser :=
  { tokens := tokenize source }

def current (parser : Parser) : Token :=
  parser.tokens.headD .endOfInput

def lookahead (parser : Parser) : Token :=
  parser.tokens.tail.headD .endOfInput

def advance (parser : Parser) : Parser :=
  { parser with tokens := parser.tokens.tail }

def record (parser : Parser) (error : ParseError) : Parser :=
  { parser with errors := parser.errors.push error }

def descend (parser : Parser) : Parser :=
  { parser with depth := parser.depth + 1 }

def ascend (parser : Parser) : Parser :=
  { parser with depth := parser.depth - 1 }

end Parser

structure Node where
  expr : Expr
  height : Nat

/-- A monad in which nodes are made. -/
class MonadBuild (m : Type → Type) where
  build : Node → m Node

export MonadBuild (build)

instance : MonadBuild ParserM := ⟨pure⟩

section Steps

variable {m : Type → Type} [Monad m] [MonadBuild m]

@[specialize]
def Node.leaf (expr : Expr) : m Node :=
  build { expr, height := 1 }

/-- A tree whose tallest part has the given height, unless that makes it too tall. -/
@[specialize]
def Node.branch [MonadExcept ParseError m] (expr : Expr) (tallest : Nat) : m Node :=
  if tallest < maxNesting then
    build { expr, height := tallest + 1 }
  else
    throw (.tooDeep maxNesting)

variable [MonadState Parser m] [MonadExcept ParseError m]

/-- Runs a step inside of one more expression, unless the parser is as deep as it may be, and
restores the depth whether the step succeeds or fails. -/
@[specialize]
def nested [MonadFinally m] {α : Type} (step : m α) : m α := do
  if (← get).depth < maxNesting then
    modify Parser.descend
    try step finally modify Parser.ascend
  else
    throw (.tooDeep maxNesting)

/-- Moves onto the closing parenthesis that has to follow. If another token follows, the parser
stays where it is. -/
@[specialize]
def expectClosing : m Unit := do
  match (← get).lookahead with
  | .rightParen => modify Parser.advance
  | found => throw (.unexpected ")" found.text)

end Steps

end Calculator
