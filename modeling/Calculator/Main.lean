import Calculator.CommandLine

/-!
# The program

Connects the command line to standard input, standard output and files. A session is answered line
by line as it is typed; everything else is computed first and written at once.
-/

set_option autoImplicit false

namespace Calculator

/-- Reads up to and including the next line feed, behind the bytes read so far in reverse. -/
partial def readLine (input : IO.FS.Stream) (read : List UInt8) : IO (List UInt8) := do
  let bytes ← input.read 1
  match bytes.data[0]? with
  | none => return read.reverse
  | some byte =>
      if byte == 10 then
        return (byte :: read).reverse
      else
        readLine input (byte :: read)

/-- Prompts for lines and answers them until the input ends. -/
partial def runInteractive (input output : IO.FS.Stream) : IO Unit := do
  output.putStr Shell.prompt
  output.flush
  let line ← readLine input []
  unless line.isEmpty do
    output.putStr (Shell.lineResponse line)
    runInteractive input output

/-- The files that a command line names, as far as they can be read. -/
def readFiles (request : Option CommandLine.Request) : IO (String → Option String) := do
  match request with
  | some (.script path) =>
      let content ← try (some <$> IO.FS.readBinFile path) catch _ => pure none
      return fun _ => content.bind String.fromUTF8?
  | _ => return fun _ => none

end Calculator

/-- Runs the calculator. A failure to write ends it without a change of status. -/
def main (arguments : List String) : IO UInt32 := do
  let output ← IO.getStdout
  let request := Calculator.CommandLine.request? arguments
  match request with
  | some .session =>
      try
        output.putStr (Calculator.Shell.banner ++ "\n")
        Calculator.runInteractive (← IO.getStdin) output
      catch _ => pure ()
      return 0
  | _ =>
      let files ← Calculator.readFiles request
      let outcome := Calculator.CommandLine.run arguments files []
      try
        output.write outcome.output
        output.flush
      catch _ => pure ()
      return outcome.status.toUInt32
