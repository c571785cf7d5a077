/-!
# Output that can fail

What the shell writes goes to an output that accepts all bytes or, in total, only so many. A write
that crosses the limit is accepted up to it and then fails.
-/

set_option autoImplicit false

namespace Calculator.Shell

inductive Failure where
  | writeLimitReached
  | readFailed
deriving DecidableEq, Repr

def Failure.message : Failure → String
  | .writeLimitReached => "write limit reached"
  | .readFailed => "read failed"

/-- The bytes accepted so far, and how many are accepted in total. -/
structure Output where
  written : ByteArray := .empty
  limit : Option Nat := none

abbrev ShellM := EStateM Failure Output

def write (text : String) : ShellM Unit := fun output =>
  let bytes := text.toUTF8
  let accept (accepted : ByteArray) : Output :=
    { output with written := output.written ++ accepted }
  match output.limit with
  | none => .ok () (accept bytes)
  | some limit =>
      let room := limit - output.written.size
      if bytes.size ≤ room then
        .ok () (accept bytes)
      else
        .error .writeLimitReached (accept (bytes.extract 0 room))

end Calculator.Shell
