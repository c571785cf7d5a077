import Calculator.Numeral
import Calculator.Token

/-!
# Cutting a text into tokens

Blanks separate tokens and mean nothing else. Where a token begins, the longest possible one is
taken; a character with which none can begin is an illegal token of its own. Every token but the
end of input uses up at least one character, so a text has at most as many tokens as characters.
-/

set_option autoImplicit false

namespace Calculator

/-- The characters between tokens: space, tab, carriage return, line feed and form feed. -/
def isBlank (c : Char) : Bool :=
  c == ' ' || c == '\t' || c == '\r' || c == '\n' || c == '\x0c'

def isNameStart (c : Char) : Bool :=
  c.isAlpha || c == '_'

def isNamePart (c : Char) : Bool :=
  c.isAlphanum || c == '_'

namespace Token

/-- The token at the very beginning of a text, and what follows it. -/
def lex : List Char → Token × List Char
  | [] => (.endOfInput, [])
  | '*' :: '*' :: rest => (.starStar, rest)
  | '*' :: rest => (.star, rest)
  | '+' :: rest => (.plus, rest)
  | '-' :: rest => (.minus, rest)
  | '/' :: rest => (.slash, rest)
  | '(' :: rest => (.leftParen, rest)
  | ')' :: rest => (.rightParen, rest)
  | ',' :: rest => (.comma, rest)
  | c :: rest =>
      if isNameStart c then
        let name := (c :: rest).takeWhile isNamePart
        (.identifier (String.ofList name), (c :: rest).dropWhile isNamePart)
      else
        match Numeral.scan? (c :: rest) with
        | some (numeral, after) => (.number numeral.toFloat, after)
        | none => (.illegal (String.ofList [c]), rest)

/-- The first token of a text, and what follows it. At the end of the text that is the end of
input, as often as one asks. -/
def next (text : List Char) : Token × List Char :=
  lex (text.dropWhile isBlank)

/-- The tokens of `text` before the end of input, behind those already read in reverse. One
character of `bound` is spent on each. -/
def collect : (bound text : List Char) → (read : List Token) → List Token
  | [], _, read => read.reverse
  | _ :: bound, text, read =>
      match next text with
      | (.endOfInput, _) => read.reverse
      | (token, rest) => collect bound rest (token :: read)

end Token

def tokenize (source : String) : List Token :=
  Token.collect source.toList source.toList []

end Calculator
