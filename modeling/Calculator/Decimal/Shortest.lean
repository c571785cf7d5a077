import Calculator.Decimal

/-!
# The shortest decimal that reads back

The numbers that round to a double form an interval around it, which holds its ends if and only if
the mantissa is even. Among the powers of ten, the greatest one with a multiple in that interval
gives the decimal with the fewest digits; of two such multiples the nearer is taken, and of two
equally near ones the upper. If any multiple of a power lies in the interval then one of the two
next to the double does, so only those are tried.
-/

set_option autoImplicit false

namespace Calculator

/-- A value and the ends of the numbers around it that round to it. -/
structure RoundingInterval where
  lower : Nat
  value : Nat
  upper : Nat
  closed : Bool
deriving DecidableEq, Repr

namespace RoundingInterval

/-- The interval of the double `mantissa * 2 ^ shift`, counted in units of `10 ^ -1076`, the coarsest
in which every end of an interval is a whole number: a quarter of `2 ^ -1074` is `5 ^ 1076` of them.
The gap below a power of two is half the gap above it, unless the number below is subnormal. -/
def ofMantissa (mantissa shift : Nat) : RoundingInterval :=
  let quarter := Nat.pow 5 1076 <<< shift
  let below := if mantissa = leadingBit ∧ shift ≠ 0 then 1 else 2
  { lower := (4 * mantissa - below) * quarter
    value := 4 * mantissa * quarter
    upper := (4 * mantissa + 2) * quarter
    closed := decide (mantissa % 2 = 0) }

/-- Whether a number rounds to the value. -/
def contains (interval : RoundingInterval) (number : Nat) : Bool :=
  if interval.closed then
    decide (interval.lower ≤ number ∧ number ≤ interval.upper)
  else
    decide (interval.lower < number ∧ number < interval.upper)

/-- How many times `step` the best multiple of it in the interval is, if there is one: of the two
multiples next to the value the nearer, and the upper if both are as near. -/
def multiple? (interval : RoundingInterval) (step : Nat) : Option Nat :=
  let floor := interval.value / step
  let floorInside := interval.contains (floor * step)
  let ceilingInside := interval.contains ((floor + 1) * step)
  if ceilingInside ∧ (floorInside = false ∨ step ≤ 2 * (interval.value % step)) then
    some (floor + 1)
  else if floorInside then
    some floor
  else
    none

/-- The best multiple of the greatest power of ten, not above `10 ^ power`, that has one in the
interval, with that power. The value itself is a multiple of one. -/
def coarsest (interval : RoundingInterval) : (power : Nat) → Nat × Nat
  | 0 => (interval.value, 0)
  | power + 1 =>
      match interval.multiple? (Nat.pow 10 (power + 1)) with
      | some count => (count, power + 1)
      | none => interval.coarsest power

/-- A power of ten above the whole interval, because `2 ^ 93 < 10 ^ 28`. -/
def powerAbove (interval : RoundingInterval) : Nat :=
  (interval.upper.log2 + 1) * 28 / 93 + 1

end RoundingInterval

/-- The decimal with the fewest digits that rounds to `mantissa * 2 ^ shift` units of
`2 ^ -1074`. -/
def shortest (mantissa shift : Nat) : Decimal :=
  if mantissa = 0 then
    { coefficient := 0, exponent := 0 }
  else
    let interval := RoundingInterval.ofMantissa mantissa shift
    let (coefficient, power) := interval.coarsest interval.powerAbove
    { coefficient, exponent := (power : Int) - 1076 }

/-- The text of a double with as few digits as tell it apart from every other. -/
def shortestText (x : Float) : String :=
  (Binary64.ofFloat x).text shortest

end Calculator
