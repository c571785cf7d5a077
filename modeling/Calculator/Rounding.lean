/-!
# Rounding a quotient to a whole number

Every inexact step between doubles and decimals divides one natural number by another and keeps
the nearest whole number. The result is within half a unit of the quotient, and a quotient
halfway between two whole numbers goes to the even one.
-/

set_option autoImplicit false

namespace Calculator

/-- The whole number nearest to `num / den`; halfway between two, the even one. -/
def roundHalfEven (num den : Nat) : Nat :=
  let whole := num / den
  let excess := 2 * (num % den)
  if excess < den ∨ (excess = den ∧ whole % 2 = 0) then whole else whole + 1

/-- Rounding never falls more than half a unit below the quotient. -/
theorem two_mul_le_roundHalfEven {num den : Nat} (den_pos : 0 < den) :
    2 * num ≤ 2 * (roundHalfEven num den * den) + den := by
  have parts := Nat.div_add_mod' num den
  have remainder := Nat.mod_lt num den_pos
  unfold roundHalfEven
  dsimp only
  split
  · omega
  · rw [Nat.add_mul]
    omega

/-- Rounding never rises more than half a unit above the quotient. -/
theorem two_mul_roundHalfEven_le (num den : Nat) :
    2 * (roundHalfEven num den * den) ≤ 2 * num + den := by
  have parts := Nat.div_add_mod' num den
  unfold roundHalfEven
  dsimp only
  split
  · omega
  · rw [Nat.add_mul]
    omega

end Calculator
