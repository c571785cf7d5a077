import Calculator.Eval
import Calculator.Parser.Program

/-!
# Programs as text

What a text means: the program that it writes, and the value of that program. Either is refused
with every diagnostic of the text.
-/

set_option autoImplicit false

namespace Calculator

/-- The program that a text writes, or everything that is wrong with the text. -/
def parse (source : String) : Except (List ParseError) Program :=
  let (program, parser) := (Parser.ofSource source).program
  if parser.errors.isEmpty then
    .ok program
  else
    .error parser.errors.toList

/-- The value of the program that a text writes, if it has one. A failed evaluation is a value. -/
def evaluate (source : String) : Except (List ParseError) (Option Value) :=
  (parse source).map Program.result

end Calculator
