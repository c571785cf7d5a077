/-!
# Reading bytes as UTF-8 without failing

Bytes become characters one at a time. A sequence that cannot go on, or is cut short by the end,
becomes one replacement character, and the byte that broke it is looked at afresh. Which bytes can
continue a sequence is decided at its first byte, so that overlong forms, surrogates and numbers
past the last character are broken off at their second byte.
-/

set_option autoImplicit false

namespace Calculator.Text

/-- What stands for bytes that are not UTF-8. -/
def replacement : Char := '\ufffd'

/-- A sequence that has begun: the bits so far, the bytes still to come, and the bounds of the next
one. -/
structure Pending where
  bits : Nat
  missing : Nat
  least : Nat := 0x80
  greatest : Nat := 0xBF
deriving DecidableEq, Repr

/-- The characters read so far, in reverse, and the sequence that has begun. -/
structure Decoder where
  read : List Char := []
  pending : Option Pending := none
deriving DecidableEq, Repr

namespace Decoder

def emit (decoder : Decoder) (c : Char) : Decoder :=
  { read := c :: decoder.read, pending := none }

def await (decoder : Decoder) (pending : Pending) : Decoder :=
  { decoder with pending := some pending }

/-- Takes a byte that continues no sequence: a character of its own, the beginning of a sequence,
or no UTF-8. -/
def start (decoder : Decoder) (byte : Nat) : Decoder :=
  if byte < 0x80 then
    decoder.emit (Char.ofNat byte)
  else if byte < 0xC2 then
    decoder.emit replacement
  else if byte < 0xE0 then
    decoder.await { bits := byte - 0xC0, missing := 1 }
  else if byte < 0xF0 then
    decoder.await
      { bits := byte - 0xE0
        missing := 2
        least := if byte = 0xE0 then 0xA0 else 0x80
        greatest := if byte = 0xED then 0x9F else 0xBF }
  else if byte < 0xF5 then
    decoder.await
      { bits := byte - 0xF0
        missing := 3
        least := if byte = 0xF0 then 0x90 else 0x80
        greatest := if byte = 0xF4 then 0x8F else 0xBF }
  else
    decoder.emit replacement

def step (decoder : Decoder) (byte : UInt8) : Decoder :=
  let byte := byte.toNat
  match decoder.pending with
  | none => decoder.start byte
  | some { bits, missing, least, greatest } =>
      if least ≤ byte ∧ byte ≤ greatest then
        let bits := bits * 64 + (byte - 0x80)
        if missing = 1 then
          decoder.emit (Char.ofNat bits)
        else
          decoder.await { bits, missing := missing - 1 }
      else
        (decoder.emit replacement).start byte

def finish (decoder : Decoder) : List Char :=
  match decoder.pending with
  | none => decoder.read.reverse
  | some _ => (decoder.emit replacement).read.reverse

end Decoder

/-- The characters that bytes stand for, with one replacement character for each longest sequence
that begins some character and does not go on. -/
def decode (bytes : List UInt8) : List Char :=
  (bytes.foldl Decoder.step {}).finish

end Calculator.Text
