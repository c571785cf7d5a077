import Calculator.Shell.Output
import Calculator.Shell.Response

/-!
# Running the shell

One text, a script, or a session. A session writes a prompt, reads a line and answers it, until
there is no line left to read.
-/

set_option autoImplicit false

namespace Calculator.Shell

def prompt : String := ">>> "

def banner : String := "Type your commands"

/-- Written instead of evaluating more than one text. -/
def usage : String := "Usage: exprcalc or exprcalc 'expression'"

/-- What a session reads: bytes, and whether reading fails where they end. -/
structure Input where
  bytes : List UInt8
  broken : Bool := false

/-- The lines that can be read. Of a line that is cut off by a failure nothing is read. -/
def Input.lines (input : Input) : List (List UInt8) :=
  let lines := Text.lines (· == 10) input.bytes
  if input.broken then
    lines.filter fun line => line.getLast? == some 10
  else
    lines

def runOnce (source : String) : ShellM Unit :=
  write (response source)

def runScript (script : String) : ShellM Unit :=
  (scriptSources script).forM runOnce

def converse : List (List UInt8) → ShellM Unit
  | [] => write prompt
  | line :: lines => do
      write prompt
      write (lineResponse line)
      converse lines

/-- Answers every line of the input. A failure to read comes to light behind the last prompt. -/
def runSession (input : Input) : ShellM Unit := do
  converse input.lines
  if input.broken then
    throw .readFailed

end Calculator.Shell
