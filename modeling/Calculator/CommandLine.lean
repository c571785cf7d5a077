import Calculator.Shell.Session

/-!
# The command line

Arguments are read from left to right. Options come first; the first argument that is no option,
and all behind it, are expressions, also if they begin with a hyphen. A request that cannot be
understood ends the program with status 2, and a script that cannot be read with status 1.

Two ways to write options are left out: the requests for help, `-h` and `--help`, and short options
in one argument with each other or with their path, as in `-vf`. Here such an argument is an
expression.
-/

set_option autoImplicit false

namespace Calculator.CommandLine

inductive Request where
  | version
  | session
  | script (path : String)
  | expressions (sources : List String)
deriving DecidableEq, Repr

structure Options where
  verbose : Bool := false
  script : Option String := none
deriving DecidableEq, Repr

/-- The path in an argument that is an option and its path in one. -/
def assignedScript? (argument : String) : Option String :=
  match argument.toList with
  | '-' :: '-' :: 'f' :: 'i' :: 'l' :: 'e' :: '=' :: path => some (String.ofList path)
  | _ => none

/-- Whether an argument is one of the options that are read here, or the mark that ends them. -/
def isOption (argument : String) : Bool :=
  ["-v", "--verbose", "-f", "--file", "-V", "--version", "--"].contains argument ||
    (assignedScript? argument).isSome

/-- The options with a script. There can be only one, and its path is not empty. -/
def Options.withScript (options : Options) (path : String) : Option Options :=
  if path.isEmpty || options.script.isSome then
    none
  else
    some { options with script := some path }

/-- The options with extended diagnostics, which can be asked for only once. -/
def Options.withVerbose (options : Options) : Option Options :=
  if options.verbose then none else some { options with verbose := true }

/-- The request of options and expressions, which exclude a script. -/
def Options.request (options : Options) (sources : List String) : Option Request :=
  match options.script, sources with
  | none, [] => some .session
  | none, sources => some (.expressions sources)
  | some path, [] => some (.script path)
  | some _, _ => none

def readArguments (options : Options) : List String → Option Request
  | [] => options.request []
  | argument :: rest =>
      if argument = "--" then
        options.request rest
      else if argument = "-V" ∨ argument = "--version" then
        some .version
      else if argument = "-v" ∨ argument = "--verbose" then
        options.withVerbose.bind fun options => readArguments options rest
      else if argument = "-f" ∨ argument = "--file" then
        match rest with
        | [] => none
        | path :: rest =>
            if isOption path then
              none
            else
              (options.withScript path).bind fun options => readArguments options rest
      else
        match assignedScript? argument with
        | some path => (options.withScript path).bind fun options => readArguments options rest
        | none => options.request (argument :: rest)

def request? (arguments : List String) : Option Request :=
  readArguments {} arguments

def version : String := "exprcalc 0.1.0"

structure Outcome where
  output : ByteArray
  status : Nat

/-- The outcome of work on an unlimited output. Work that fails does not change the status. -/
def Outcome.ofShell (work : Shell.ShellM Unit) : Outcome :=
  match work {} with
  | .ok _ output => { output := output.written, status := 0 }
  | .error _ output => { output := output.written, status := 0 }

/-- Runs a command line on files and standard input. -/
def run (arguments : List String) (files : String → Option String) (input : List UInt8) :
    Outcome :=
  match request? arguments with
  | none => { output := .empty, status := 2 }
  | some .version => .ofShell (Shell.write (version ++ "\n"))
  | some .session => .ofShell do
      Shell.write (Shell.banner ++ "\n")
      Shell.runSession { bytes := input }
  | some (.script path) =>
      match files path with
      | none => { output := .empty, status := 1 }
      | some script => .ofShell (Shell.runScript script)
  | some (.expressions [source]) => .ofShell (Shell.runOnce source)
  | some (.expressions _) => .ofShell (Shell.write (Shell.usage ++ "\n"))

end Calculator.CommandLine
