import Calculator.Parser

/-!
# Parsing one expression

Precedence climbing. The current token selects how an expression begins; then, as long as the
lookahead binds tighter than a threshold, it extends what has been read. Every rule is written
over `operand`, the rule for an expression inside of another, and `parseNode` closes the circle one
level of nesting at a time.

Loops are bounded by the tokens that are left when they begin, as each turn uses up at least one.
-/

set_option autoImplicit false

namespace Calculator

section Rules

variable {m : Type → Type} [Monad m] [MonadBuild m] [MonadState Parser m]
variable [MonadExcept ParseError m] (operand : Precedence → m Node)

/-- A sign and its operand, which extends only over calls. -/
@[specialize]
def parseSigned (sign : Sign) : m Node := do
  modify Parser.advance
  let operand ← operand .sign
  Node.branch (.signed sign operand.expr) operand.height

/-- An expression in parentheses, which adds nothing to the tree. -/
@[specialize]
def parseGroup : m Node := do
  modify Parser.advance
  let inner ← operand .lowest
  expectClosing
  return inner

/-- The beginning of an expression: a number, a name, a sign with its operand, or a group. -/
@[specialize]
def parsePrimary : m Node := do
  match (← get).current with
  | .number value => Node.leaf (.number value)
  | .identifier name => Node.leaf (.identifier name)
  | .plus => parseSigned operand .plus
  | .minus => parseSigned operand .minus
  | .leftParen => parseGroup operand
  | .illegal text => throw (.illegal text)
  | token => throw (.noExpression token.text)

@[specialize]
def parseBinary (left : Node) (operator : Operator) : m Node := do
  modify Parser.advance
  let right ← operand operator.rightPrecedence
  Node.branch (.binary left.expr operator right.expr) (max left.height right.height)

/-- Arguments behind those already read in reverse, the tallest of which has the given height. -/
@[specialize]
def parseArgumentsWithin : (bound : List Token) → (read : List Expr) → (tallest : Nat) →
    m (List Expr × Nat)
  | [], read, tallest => return (read.reverse, tallest)
  | _ :: bound, read, tallest => do
      modify Parser.advance
      let argument ← operand .lowest
      let read := argument.expr :: read
      let tallest := max tallest argument.height
      match (← get).lookahead with
      | .comma =>
          modify Parser.advance
          parseArgumentsWithin bound read tallest
      | _ => return (read.reverse, tallest)

/-- The arguments of a call and the height of the tallest, from the opening to the closing
parenthesis. -/
@[specialize]
def parseArguments : m (List Expr × Nat) := do
  match (← get).lookahead with
  | .rightParen =>
      modify Parser.advance
      return ([], 0)
  | _ =>
      let result ← parseArgumentsWithin operand (← get).tokens [] 0
      expectClosing
      return result

@[specialize]
def parseCall (function : Node) : m Node := do
  let (arguments, tallest) ← parseArguments operand
  Node.branch (.call function.expr arguments) (max function.height tallest)

/-- Extends the expression on the left by what the current token begins: a call, or an operator
with its right operand. -/
@[specialize]
def parseExtension (left : Node) : m Node := do
  match (← get).current with
  | .leftParen => parseCall operand left
  | token =>
      match Operator.ofToken? token with
      | some operator => parseBinary operand left operator
      | none => throw (.noOperator token.text)

/-- Extends the expression on the left as long as the lookahead binds tighter than the
threshold. -/
@[specialize]
def climbWithin (threshold : Precedence) : (bound : List Token) → (left : Node) → m Node
  | [], left => return left
  | _ :: bound, left => do
      if threshold < Precedence.of (← get).lookahead then
        modify Parser.advance
        let extended ← parseExtension operand left
        climbWithin threshold bound extended
      else
        return left

/-- Extends the expression on the left over all tokens that bind tighter than the threshold. -/
@[specialize]
def climb (threshold : Precedence) (left : Node) : m Node := do
  climbWithin operand threshold (← get).tokens left

@[specialize]
def parseClimbing (threshold : Precedence) : m Node := do
  let left ← parsePrimary operand
  climb operand threshold left

end Rules

/-- An expression inside of at most `levels` others. Without a level left the parser is as deep as
it may be, and there is no such expression. -/
@[specialize]
def parseNode {m : Type → Type} [Monad m] [MonadBuild m] [MonadState Parser m]
    [MonadExcept ParseError m] [MonadFinally m] : (levels : Nat) → Precedence → m Node
  | 0, _ => throw (.tooDeep maxNesting)
  | levels + 1, threshold => nested (parseClimbing (parseNode levels) threshold)

/-- The expression at the current token whose operators all bind tighter than the threshold. The
parser is left at its last token. -/
def parseExpression (threshold : Precedence) : ParserM Expr :=
  return (← parseNode maxNesting threshold).expr

end Calculator
