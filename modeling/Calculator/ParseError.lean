/-!
# What is wrong with a text

The causes for which a text is no expression, and the wording of each. A diagnostic quotes tokens
by their text, so two of them are equal as soon as they read the same.
-/

set_option autoImplicit false

namespace Calculator

/-- Why an expression could not be read. -/
inductive ParseError where
  /-- A token stands where an expression should begin. -/
  | noExpression (token : String)
  /-- Another token than the required one follows. -/
  | unexpected (expected found : String)
  /-- A character belongs to no token. -/
  | illegal (text : String)
  /-- A token stands between operands and is no operator. -/
  | noOperator (token : String)
  /-- The expression nests deeper than `limit` levels. -/
  | tooDeep (limit : Nat)
deriving DecidableEq, Repr

def ParseError.message : ParseError → String
  | .noExpression token => "no prefix parse function for " ++ token ++ " found"
  | .unexpected expected found =>
      "expected next token to be " ++ expected ++ ", got " ++ found ++ " instead"
  | .illegal text => "illegal token " ++ text
  | .noOperator token => "no infix parse function for " ++ token ++ " found"
  | .tooDeep limit => "expression nested too deeply. limit=" ++ limit.repr

end Calculator
