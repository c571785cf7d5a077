import Calculator.Proofs.Number.Word

/-!
# Which quotients round to a double

A quotient rounds to a double if it lies no further from it than halfway to the next double on
either side, and closer than that if the mantissa is odd. Below a power of two the next double is
only half as far away. Every quotient rounds to some double, unless it is as large as the middle
between the largest double and the next power of two: those have the word of infinity.
-/

set_option autoImplicit false

namespace Calculator

/-- A whole number within half a unit of the quotient is its rounding; exactly half a unit away only
if it is even. -/
theorem roundHalfEven_eq {num den whole : Nat} (positive : 0 < den)
    (lower : 2 * (whole * den) ≤ 2 * num + den) (upper : 2 * num ≤ 2 * (whole * den) + den)
    (strict : whole % 2 = 1 →
      2 * (whole * den) < 2 * num + den ∧ 2 * num < 2 * (whole * den) + den) :
    roundHalfEven num den = whole := by
  have parts := Nat.div_add_mod' num den
  have remainder := Nat.mod_lt num positive
  unfold roundHalfEven
  dsimp only
  have notAbove : whole < num / den + 2 := by
    apply Nat.lt_of_mul_lt_mul_right (a := den)
    rw [Nat.add_mul]
    omega
  have notBelow : num / den < whole + 1 := by
    apply Nat.lt_of_mul_lt_mul_right (a := den)
    rw [Nat.add_mul]
    omega
  obtain same | next : whole = num / den ∨ whole = num / den + 1 := by omega
  · rw [← same] at parts ⊢
    rw [if_pos (by omega)]
  · rw [next, Nat.add_mul] at lower upper strict
    rw [if_neg (by omega), next]

/-- Halfway between two whole numbers, the even one is taken. -/
theorem roundHalfEven_even {num den : Nat}
    (tie : 2 * num = 2 * (roundHalfEven num den * den) + den ∨
      2 * (roundHalfEven num den * den) = 2 * num + den) (positive : 0 < den) :
    roundHalfEven num den % 2 = 0 := by
  have parts := Nat.div_add_mod' num den
  have remainder := Nat.mod_lt num positive
  unfold roundHalfEven at tie ⊢
  dsimp only at tie ⊢
  split at tie
  next near =>
    rw [if_pos near]
    omega
  next far =>
    rw [if_neg far]
    rw [Nat.add_mul] at tie
    omega

/-- A quotient no more than halfway below an even number does not round to less. -/
theorem le_roundHalfEven_of_even {num den whole : Nat} (positive : 0 < den)
    (even : whole % 2 = 0) (near : 2 * (whole * den) ≤ 2 * num + den) :
    whole ≤ roundHalfEven num den := by
  have lower := @two_mul_le_roundHalfEven num den positive
  have parity := fun tie => @roundHalfEven_even num den tie positive
  generalize roundHalfEven num den = rounded at lower parity
  refine Nat.le_of_not_lt fun less => ?_
  have bound := Nat.mul_le_mul_right den (show rounded + 1 ≤ whole from less)
  rw [Nat.add_mul] at bound
  have tie := parity (.inl (by omega))
  have further := Nat.mul_le_mul_right den (show rounded + 2 ≤ whole by omega)
  rw [Nat.add_mul] at further
  omega

/-!
## The width of a quotient
-/

/-- The shift that makes a quotient fifty-three bits wide, or leaves it narrower without one. -/
structure IsShift (shift units den : Nat) : Prop where
  wide : shift ≠ 0 → 2 ^ 52 * (2 ^ shift * den) ≤ units
  narrow : units < 2 ^ 53 * (2 ^ shift * den)

private theorem isShift_log2 (units : Nat) {den : Nat} (positive : 0 < den) :
    IsShift ((units / den).log2 - 52) units den := by
  by_cases zero : units / den = 0
  · rw [zero]
    refine ⟨nofun, ?_⟩
    have small := (Nat.div_eq_zero_iff_lt positive).mp zero
    show units < 2 ^ 53 * (2 ^ 0 * den)
    omega
  · have below := Nat.log2_self_le zero
    have above : units / den < 2 ^ ((units / den).log2 + 1) := Nat.lt_log2_self
    generalize (units / den).log2 = bits at below above
    rw [Nat.le_div_iff_mul_le positive] at below
    rw [Nat.div_lt_iff_lt_mul positive] at above
    refine ⟨fun normal => ?_, ?_⟩
    · rw [← Nat.mul_assoc, ← Nat.pow_add, show 52 + (bits - 52) = bits by omega]
      exact below
    · rw [← Nat.mul_assoc, ← Nat.pow_add]
      refine Nat.lt_of_lt_of_le above (Nat.mul_le_mul_right _ ?_)
      exact Nat.pow_le_pow_right (by decide) (by omega)

private theorem two_pow_succ_mul (shift den : Nat) :
    2 ^ (shift + 1) * den = 2 * (2 ^ shift * den) := by
  rw [Nat.pow_succ, Nat.mul_comm _ 2, Nat.mul_assoc]

namespace IsShift

variable {shift other units den : Nat}

private theorem unit_pos (isShift : IsShift shift units den) : 0 < 2 ^ shift * den := by
  refine Nat.pos_of_ne_zero fun zero => ?_
  have narrow := isShift.narrow
  rw [zero] at narrow
  exact Nat.not_lt_zero _ narrow

private theorem shift_le (isShift : IsShift shift units den) (top : Nat)
    (small : units < 2 ^ 53 * (2 ^ top * den)) : shift ≤ top := by
  refine Nat.le_of_not_lt fun greater => ?_
  have wide := isShift.wide (Nat.ne_zero_of_lt greater)
  have power : 2 ^ (top + 1) * den ≤ 2 ^ shift * den :=
    Nat.mul_le_mul_right _ (Nat.pow_le_pow_right (by decide) greater)
  rw [two_pow_succ_mul] at power
  omega

private theorem le_shift (isShift : IsShift shift units den) (top : Nat)
    (large : 2 ^ 52 * (2 ^ top * den) ≤ units) : top ≤ shift := by
  refine Nat.le_of_not_lt fun lesser => ?_
  have narrow := isShift.narrow
  have power : 2 ^ (shift + 1) * den ≤ 2 ^ top * den :=
    Nat.mul_le_mul_right _ (Nat.pow_le_pow_right (by decide) lesser)
  rw [two_pow_succ_mul] at power
  omega

theorem unique (isShift : IsShift shift units den) (otherShift : IsShift other units den) :
    shift = other :=
  Nat.le_antisymm (isShift.shift_le other otherShift.narrow)
    (otherShift.shift_le shift isShift.narrow)

end IsShift

/-!
## Quotients that round to a magnitude
-/

/-- Half the distance from a magnitude to the one below, where a quarter of the distance to the one
above counts as one. -/
def gapBelow (mantissa shift : Nat) : Nat :=
  if mantissa = leadingBit ∧ shift ≠ 0 then 1 else 2

/-- The quotient `units / den`, counted in units of `2 ^ -1074`, rounds to a magnitude. -/
structure RoundsTo (mantissa shift units den : Nat) : Prop where
  lower : 4 * (mantissa * (2 ^ shift * den)) ≤
    4 * units + gapBelow mantissa shift * (2 ^ shift * den)
  upper : 4 * units ≤ 4 * (mantissa * (2 ^ shift * den)) + 2 * (2 ^ shift * den)
  strict : mantissa % 2 = 1 →
    4 * (mantissa * (2 ^ shift * den)) <
      4 * units + gapBelow mantissa shift * (2 ^ shift * den) ∧
    4 * units < 4 * (mantissa * (2 ^ shift * den)) + 2 * (2 ^ shift * den)

theorem gapBelow_le (mantissa shift : Nat) : gapBelow mantissa shift ≤ 2 := by
  unfold gapBelow
  split <;> omega

namespace RoundsTo

variable {mantissa shift units den : Nat}

private theorem roundHalfEven_shifted (rounds : RoundsTo mantissa shift units den)
    (positive : 0 < den) :
    roundHalfEven units (den <<< shift) = mantissa := by
  have gap := Nat.mul_le_mul_right (2 ^ shift * den) (gapBelow_le mantissa shift)
  have unit : 0 < 2 ^ shift * den := Nat.mul_pos (Nat.two_pow_pos _) positive
  rw [Nat.shiftLeft_eq, Nat.mul_comm den]
  refine roundHalfEven_eq unit ?_ ?_ fun odd => ?_
  · have lower := rounds.lower
    omega
  · have upper := rounds.upper
    omega
  · have strict := rounds.strict odd
    omega

private theorem units_lt (rounds : RoundsTo mantissa shift units den)
    (magnitude : IsMagnitude mantissa shift) (positive : 0 < den) :
    units < 2 ^ 53 * (2 ^ shift * den) := by
  have unit : 0 < 2 ^ shift * den := Nat.mul_pos (Nat.two_pow_pos _) positive
  have widest : mantissa ≤ 2 ^ 53 - 1 := Nat.le_sub_one_of_lt magnitude.mantissa_lt
  have bound := Nat.mul_le_mul_right (2 ^ shift * den) widest
  have upper := rounds.upper
  omega

/-- Only below a power of two can a quotient be narrower than what it rounds to. -/
theorem eq_leadingBit (rounds : RoundsTo mantissa shift units den)
    (magnitude : IsMagnitude mantissa shift) (positive : 0 < den) (normal : shift ≠ 0)
    (narrow : units < 2 ^ 52 * (2 ^ shift * den)) : mantissa = leadingBit := by
  have unit : 0 < 2 ^ shift * den := Nat.mul_pos (Nat.two_pow_pos _) positive
  have gap := Nat.mul_le_mul_right (2 ^ shift * den) (gapBelow_le mantissa shift)
  have full := magnitude.full normal
  refine Nat.le_antisymm (Nat.le_of_not_lt fun wider => ?_) full
  have next : leadingBit + 1 ≤ mantissa := wider
  have bound := Nat.mul_le_mul_right (2 ^ shift * den) next
  rw [Nat.add_mul, Nat.one_mul, leadingBit_eq] at bound
  have lower := rounds.lower
  omega

/-- Such a quotient is one bit narrower, and rounding it carries into that bit. -/
theorem carries (rounds : RoundsTo leadingBit (shift + 1) units den) (positive : 0 < den)
    (narrow : units < 2 ^ 52 * (2 ^ (shift + 1) * den)) :
    IsShift shift units den ∧ roundHalfEven units (den <<< shift) = 2 ^ 53 := by
  have unit : 0 < 2 ^ shift * den := Nat.mul_pos (Nat.two_pow_pos _) positive
  have gap : gapBelow leadingBit (shift + 1) = 1 := if_pos ⟨rfl, Nat.succ_ne_zero _⟩
  have lower := rounds.lower
  rw [gap, leadingBit_eq, two_pow_succ_mul shift] at lower
  rw [two_pow_succ_mul shift] at narrow
  refine ⟨⟨fun _ => by omega, by omega⟩, ?_⟩
  rw [Nat.shiftLeft_eq, Nat.mul_comm den]
  exact roundHalfEven_eq unit (by omega) (by omega) (by omega)

/-- A quotient that rounds to a magnitude has the word of that magnitude. -/
theorem nearestWord_eq {num : Nat} (rounds : RoundsTo mantissa shift (num <<< 1074) den)
    (magnitude : IsMagnitude mantissa shift) (positive : 0 < den) :
    nearestWord num den = shift * leadingBit + mantissa := by
  have bounded := Nat.le_of_lt magnitude.word_lt
  have narrow := rounds.units_lt magnitude positive
  unfold nearestWord
  dsimp only
  generalize num <<< 1074 = units at rounds narrow
  have isShift := isShift_log2 units positive
  by_cases wide : shift ≠ 0 → 2 ^ 52 * (2 ^ shift * den) ≤ units
  · rw [isShift.unique ⟨wide, narrow⟩, rounds.roundHalfEven_shifted positive, Nat.shiftLeft_eq]
    exact Nat.min_eq_left bounded
  · obtain ⟨normal, below⟩ := Classical.not_imp.mp wide
    replace below := Nat.lt_of_not_le below
    obtain rfl := rounds.eq_leadingBit magnitude positive normal below
    obtain ⟨lesser, rfl⟩ := Nat.exists_eq_succ_of_ne_zero normal
    obtain ⟨narrower, carried⟩ := rounds.carries positive below
    have same : lesser * 2 ^ 52 + 2 ^ 53 = lesser.succ * leadingBit + leadingBit := by
      rw [leadingBit_eq]
      omega
    rw [isShift.unique narrower, carried, Nat.shiftLeft_eq, same]
    exact Nat.min_eq_left bounded

end RoundsTo

/-- At most half of `2 ^ -1074` rounds to zero. -/
theorem RoundsTo.zero {units den : Nat} (small : 4 * units ≤ 2 * den) :
    RoundsTo 0 0 units den :=
  ⟨by rw [Nat.zero_mul]; exact Nat.zero_le _, by omega, nofun⟩

theorem nearestWord_eq_zero {num den : Nat} (positive : 0 < den)
    (small : 4 * (num <<< 1074) ≤ 2 * den) : nearestWord num den = 0 :=
  (RoundsTo.zero small).nearestWord_eq .zero positive

/-!
## Every quotient is rounded
-/

namespace IsShift

variable {shift units den : Nat}

private theorem roundHalfEven_le (isShift : IsShift shift units den) :
    roundHalfEven units (2 ^ shift * den) ≤ 2 ^ 53 := by
  have rounded := two_mul_roundHalfEven_le units (2 ^ shift * den)
  have narrow := isShift.narrow
  refine Nat.le_of_not_lt fun wider => ?_
  have bound := Nat.mul_le_mul_right (2 ^ shift * den) (show 2 ^ 53 + 1 ≤ _ from wider)
  have positive := isShift.unit_pos
  omega

private theorem le_roundHalfEven (isShift : IsShift shift units den) (normal : shift ≠ 0) :
    2 ^ 52 ≤ roundHalfEven units (2 ^ shift * den) := by
  have wide := isShift.wide normal
  exact le_roundHalfEven_of_even isShift.unit_pos (by decide) (by omega)

/-- Halfway to the next power of two, rounding carries past fifty-three bits. -/
theorem roundHalfEven_carries (isShift : IsShift shift units den)
    (halfway : (2 ^ 54 - 1) * (2 ^ shift * den) ≤ 2 * units) :
    2 ^ 53 ≤ roundHalfEven units (2 ^ shift * den) :=
  le_roundHalfEven_of_even isShift.unit_pos (by decide) (by omega)

private theorem roundsTo (isShift : IsShift shift units den) :
    RoundsTo (roundHalfEven units (2 ^ shift * den)) shift units den := by
  have positive := isShift.unit_pos
  have lower := two_mul_roundHalfEven_le units (2 ^ shift * den)
  have upper := @two_mul_le_roundHalfEven units _ positive
  have even := fun tie => @roundHalfEven_even units _ tie positive
  generalize roundHalfEven units (2 ^ shift * den) = whole at lower upper even
  by_cases power : whole = leadingBit ∧ shift ≠ 0
  · have wide := isShift.wide power.2
    have gap : gapBelow whole shift = 1 := if_pos power
    have leading : whole = 2 ^ 52 := power.1.trans leadingBit_eq
    refine ⟨?_, by omega, fun odd => ?_⟩
    · rw [gap, leading]
      omega
    · rw [leading] at odd
      cases odd
  · have gap : gapBelow whole shift = 2 := if_neg power
    refine ⟨?_, by omega, fun odd => ?_⟩
    · rw [gap]
      omega
    · rw [gap]
      omega

/-- Rounding that carries past fifty-three bits finds the next power of two. -/
theorem roundsTo_carried (isShift : IsShift shift units den)
    (carried : roundHalfEven units (2 ^ shift * den) = 2 ^ 53) :
    RoundsTo leadingBit (shift + 1) units den := by
  have lower := two_mul_roundHalfEven_le units (2 ^ shift * den)
  have narrow := isShift.narrow
  have gap : gapBelow leadingBit (shift + 1) = 1 := if_pos ⟨rfl, Nat.succ_ne_zero _⟩
  rw [carried] at lower
  refine ⟨?_, ?_, nofun⟩
  · rw [gap, two_pow_succ_mul, leadingBit_eq]
    omega
  · rw [two_pow_succ_mul, leadingBit_eq]
    omega

end IsShift

section Range

variable {units num den : Nat}

/-- What lies below the middle between the largest double and the next power of two rounds to a
double. -/
theorem exists_roundsTo (positive : 0 < den)
    (small : 2 * units < (2 ^ 54 - 1) * (2 ^ 2045 * den)) :
    ∃ mantissa shift, IsMagnitude mantissa shift ∧ RoundsTo mantissa shift units den := by
  have isShift := isShift_log2 units positive
  generalize (units / den).log2 - 52 = shift at isShift
  have widest := isShift.roundHalfEven_le
  have full := isShift.le_roundHalfEven
  have upper := two_mul_roundHalfEven_le units (2 ^ shift * den)
  have least := isShift.shift_le 2045 (by omega)
  have leading := leadingBit_eq
  by_cases carried : roundHalfEven units (2 ^ shift * den) = 2 ^ 53
  · refine ⟨leadingBit, shift + 1, ⟨by decide, ?_, fun _ => Nat.le_refl _⟩,
      isShift.roundsTo_carried carried⟩
    refine Nat.lt_of_le_of_ne least ?_
    rintro rfl
    rw [carried] at upper
    omega
  · refine ⟨_, shift, ⟨?_, least, ?_⟩, isShift.roundsTo⟩
    · omega
    · rw [leading]
      exact full

/-- What lies no lower has the word of infinity. -/
theorem nearestWord_eq_infinityWord (positive : 0 < den)
    (large : (2 ^ 54 - 1) * (2 ^ 2045 * den) ≤ 2 * (num <<< 1074)) :
    nearestWord num den = infinityWord := by
  unfold nearestWord
  dsimp only
  generalize num <<< 1074 = units at large
  have isShift := isShift_log2 units positive
  generalize (units / den).log2 - 52 = shift at isShift
  have full := isShift.le_roundHalfEven
  have least := isShift.le_shift 2045 (by omega)
  rw [Nat.shiftLeft_eq den, Nat.mul_comm den, Nat.shiftLeft_eq]
  refine Nat.min_eq_right ?_
  rw [infinityWord_eq]
  by_cases last : shift = 2045
  · have carries := isShift.roundHalfEven_carries (by rw [last]; exact large)
    omega
  · have wide := full (by omega)
    omega

/-- From `2 ^ 1024` on, whole numbers are too large for a double. -/
theorem nearestWord_of_two_pow_le (large : 2 ^ 1024 ≤ num) :
    nearestWord num 1 = infinityWord := by
  have powers {a b c d : Nat} (same : a + b = c + d + 1) :
      2 ^ a * 2 ^ b = 2 * (2 ^ c * 2 ^ d) := by
    rw [← Nat.pow_add, same, Nat.pow_succ', Nat.pow_add]
  refine nearestWord_eq_infinityWord Nat.one_pos ?_
  rw [Nat.shiftLeft_eq, Nat.mul_one]
  calc (2 ^ 54 - 1) * 2 ^ 2045 ≤ 2 ^ 54 * 2 ^ 2045 := Nat.mul_le_mul_right _ (Nat.sub_le _ _)
    _ = 2 * (2 ^ 1024 * 2 ^ 1074) := powers rfl
    _ ≤ 2 * (num * 2 ^ 1074) := Nat.mul_le_mul_left 2 (Nat.mul_le_mul_right _ large)

end Range

end Calculator
