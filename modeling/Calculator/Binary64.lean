import Calculator.Rounding

/-!
# What a double stands for

A finite double is a sign and a whole number of units of `2 ^ -1074`, the least positive double:
`mantissa * 2 ^ shift` of them, so that all arithmetic on magnitudes is arithmetic on natural
numbers. `Binary64.ofFloat` takes a double apart and `nearest` finds the double for a quotient.
-/

set_option autoImplicit false

namespace Calculator

/-- The number, infinity or non-number that a double stands for. A finite magnitude is
`mantissa * 2 ^ shift` units of `2 ^ -1074`. -/
inductive Binary64 where
  | nan
  | infinite (negative : Bool)
  | finite (negative : Bool) (mantissa shift : Nat)
deriving DecidableEq, Repr

/-- The leading bit of a mantissa of full width, which a word leaves out. -/
def leadingBit : Nat := 1 <<< 52

/-- A biased exponent of zero marks the subnormal numbers, which have no leading one; the greatest
marks what is not finite. -/
def Binary64.ofFloat (x : Float) : Binary64 :=
  let word := x.toBits.toNat
  let negative := decide (word >>> 63 = 1)
  let biased := (word >>> 52) % 2048
  let fraction := word % leadingBit
  if biased = 2047 then
    if fraction = 0 then .infinite negative else .nan
  else if biased = 0 then
    .finite negative fraction 0
  else
    .finite negative (leadingBit + fraction) (biased - 1)

/-- The word of positive infinity, which is also the least word above all finite magnitudes. -/
def infinityWord : Nat := 2047 <<< 52

/-- The word of the double nearest to `num / den`, ties to the even mantissa.

`shift` makes the mantissa fifty-three bits wide, or leaves it shorter among the subnormal
numbers. A mantissa that carries into the next power of two, or past the largest double, carries
into the exponent field, so one sum covers every case. -/
def nearestWord (num den : Nat) : Nat :=
  let units := num <<< 1074
  let shift := (units / den).log2 - 52
  min (shift <<< 52 + roundHalfEven units (den <<< shift)) infinityWord

def nearest (num den : Nat) : Float :=
  Float.ofBits (UInt64.ofNat (nearestWord num den))

def infinity : Float :=
  Float.ofBits (UInt64.ofNat infinityWord)

end Calculator
