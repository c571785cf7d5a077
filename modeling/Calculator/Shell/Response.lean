import Calculator.Source
import Calculator.Text.Blank
import Calculator.Text.Lines
import Calculator.Text.Utf8

/-!
# What the shell answers

The answer to one text: its value, `nil` if it has none, or its diagnostics, a line each. A script
and a session answer line by line, and each decides in its own way what a line is.
-/

set_option autoImplicit false

namespace Calculator.Shell

/-- The answer to a text, in whole lines. -/
def response (source : String) : String :=
  match evaluate source with
  | .ok (some value) => value.text ++ "\n"
  | .ok none => "nil\n"
  | .error errors => String.join (errors.map fun error => "\t" ++ error.message ++ "\n")

/-- Whether a character ends a line or belongs to the end of one. -/
def isLineEnd (c : Char) : Bool :=
  c == '\n' || c == '\r'

/-- The answer to a line of a session. The bytes may be anything, and nothing of the line's end is
part of the text. -/
def lineResponse (line : List UInt8) : String :=
  response (String.ofList (Text.trimRight isLineEnd (Text.decode line)))

/-- A line of a script without its end: a line feed, and a carriage return in front of it. -/
def lineContent (line : List Char) : List Char :=
  match line.reverse with
  | '\n' :: '\r' :: rest => rest.reverse
  | '\n' :: rest => rest.reverse
  | _ => line

/-- The texts of a script: its lines, without those that are blank. -/
def scriptSources (script : String) : List String :=
  (((Text.lines (· == '\n') script.toList).map lineContent).filter
    fun line => !Text.isBlankLine line).map String.ofList

end Calculator.Shell
