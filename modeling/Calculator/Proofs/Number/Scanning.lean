import Calculator.Numeral

/-!
# Numerals found in a text

Which spellings are numerals, said part by part and without a scanner. Whatever stands behind a
numeral, scanning finds one at least as long in its place; where nothing behind it continues it,
scanning finds this very numeral. So no two numerals are spelled alike.
-/

set_option autoImplicit false

namespace Calculator

/-!
## Where a run of characters ends
-/

/-- What follows begins with no character of a class. -/
def StopsAt (inClass : Char → Bool) (rest : List Char) : Prop :=
  ∀ c, rest.head? = some c → inClass c = false

section Runs

variable {inClass : Char → Bool} {run rest : List Char}

theorem StopsAt.takeWhile (stops : StopsAt inClass rest) : rest.takeWhile inClass = [] := by
  cases rest with
  | nil => rfl
  | cons c rest => simp [stops c rfl]

theorem StopsAt.dropWhile (stops : StopsAt inClass rest) : rest.dropWhile inClass = rest := by
  cases rest with
  | nil => rfl
  | cons c rest => simp [stops c rfl]

theorem stopsAt_cons {c : Char} (outside : inClass c = false) (rest : List Char) :
    StopsAt inClass (c :: rest) := by
  intro head same
  cases same
  exact outside

theorem stopsAt_dropWhile (inClass : Char → Bool) (text : List Char) :
    StopsAt inClass (text.dropWhile inClass) := by
  intro c head
  have stopped := List.head?_dropWhile_not inClass text
  rw [head] at stopped
  exact stopped

theorem takeWhile_run (inside : ∀ c ∈ run, inClass c = true) (stops : StopsAt inClass rest) :
    (run ++ rest).takeWhile inClass = run := by
  rw [List.takeWhile_append_of_pos inside, stops.takeWhile, List.append_nil]

theorem dropWhile_run (inside : ∀ c ∈ run, inClass c = true) (stops : StopsAt inClass rest) :
    (run ++ rest).dropWhile inClass = rest := by
  rw [List.dropWhile_append_of_pos inside, stops.dropWhile]

theorem inClass_of_mem_takeWhile {text : List Char} {c : Char}
    (member : c ∈ text.takeWhile inClass) : inClass c = true :=
  List.all_eq_true.mp List.all_takeWhile c member

theorem length_dropWhile_le (inClass : Char → Bool) (text : List Char) :
    (text.dropWhile inClass).length ≤ text.length :=
  (List.dropWhile_sublist _).length_le

end Runs

/-!
## Proper numerals
-/

/-- A mark, perhaps a sign, and at least one digit. -/
structure Exponent.IsProper (exponent : Exponent) : Prop where
  mark : exponent.mark = 'e' ∨ exponent.mark = 'E'
  nonempty : exponent.digits ≠ []
  digits : ∀ c ∈ exponent.digits, c.isDigit = true

/-- Digits on at least one side of the point, and none missing behind it. -/
structure Numeral.IsProper (numeral : Numeral) : Prop where
  whole : ∀ c ∈ numeral.whole, c.isDigit = true
  fraction : ∀ digits ∈ numeral.fraction, digits ≠ [] ∧ ∀ c ∈ digits, c.isDigit = true
  exponent : ∀ exponent ∈ numeral.exponent, exponent.IsProper
  nonempty : numeral.whole ≠ [] ∨ numeral.fraction ≠ none

instance (exponent : Exponent) : Decidable exponent.IsProper :=
  decidable_of_iff
    ((exponent.mark = 'e' ∨ exponent.mark = 'E') ∧ exponent.digits ≠ [] ∧
      exponent.digits.all Char.isDigit = true)
    ⟨fun ⟨mark, nonempty, digits⟩ => ⟨mark, nonempty, List.all_eq_true.mp digits⟩,
      fun ⟨mark, nonempty, digits⟩ => ⟨mark, nonempty, List.all_eq_true.mpr digits⟩⟩

instance (numeral : Numeral) : Decidable numeral.IsProper :=
  decidable_of_iff
    (numeral.whole.all Char.isDigit = true ∧
      (∀ digits ∈ numeral.fraction, digits ≠ [] ∧ digits.all Char.isDigit = true) ∧
      (∀ exponent ∈ numeral.exponent, exponent.IsProper) ∧
      (numeral.whole ≠ [] ∨ numeral.fraction ≠ none))
    ⟨fun ⟨whole, fraction, exponent, nonempty⟩ =>
        ⟨List.all_eq_true.mp whole, fun digits present =>
          ⟨(fraction digits present).1, List.all_eq_true.mp (fraction digits present).2⟩,
          exponent, nonempty⟩,
      fun ⟨whole, fraction, exponent, nonempty⟩ =>
        ⟨List.all_eq_true.mpr whole, fun digits present =>
          ⟨(fraction digits present).1, List.all_eq_true.mpr (fraction digits present).2⟩,
          exponent, nonempty⟩⟩

/-!
## Exponents in front of a text
-/

namespace Exponent

variable {exponent : Exponent}

/-- The exponent that also has the digits that a text begins with. -/
def extend (exponent : Exponent) (text : List Char) : Exponent :=
  { exponent with digits := exponent.digits ++ text.takeWhile Char.isDigit }

private theorem scanSign_append {digits : List Char} (sign : Option Sign) (nonempty : digits ≠ [])
    (inside : ∀ c ∈ digits, c.isDigit = true) (rest : List Char) :
    scanSign ((sign.map Sign.char).toList ++ (digits ++ rest)) = (sign, digits ++ rest) := by
  cases sign with
  | some sign => cases sign <;> rfl
  | none =>
      obtain ⟨c, digits, rfl⟩ := List.exists_cons_of_ne_nil nonempty
      have digit : c.isDigit = true := inside c List.mem_cons_self
      simp only [Option.map_none, Option.toList_none, List.nil_append, List.cons_append]
      unfold scanSign
      split
      case h_3 => rfl
      all_goals
        rename_i shape
        cases shape
        cases digit

private theorem scan?_append (proper : exponent.IsProper) (rest : List Char) :
    scan? (exponent.spelling ++ rest) =
      some (exponent.extend rest, rest.dropWhile Char.isDigit) := by
  obtain ⟨mark, sign, digits⟩ := exponent
  obtain ⟨isMark, nonempty, inside⟩ := proper
  have found : digits ++ rest.takeWhile Char.isDigit ≠ [] := by simp [nonempty]
  rw [spelling, List.cons_append, List.cons_append, List.append_assoc, scan?,
    scanSign_append sign nonempty inside]
  dsimp only
  rw [List.takeWhile_append_of_pos inside, List.dropWhile_append_of_pos inside,
    if_pos ⟨isMark, found⟩, extend]

theorem isProper_of_scan? {text rest : List Char} (scanned : scan? text = some (exponent, rest)) :
    exponent.IsProper := by
  cases text with
  | nil => cases scanned
  | cons mark tail =>
      simp only [scan?] at scanned
      split at scanned
      next found =>
        cases scanned
        exact ⟨found.1, found.2, fun _ => inClass_of_mem_takeWhile⟩
      next => cases scanned

/-- An exponent begins with a letter, which ends the digits in front of it. -/
theorem stopsAt_spelling (proper : exponent.IsProper) (rest : List Char) :
    StopsAt Char.isDigit (exponent.spelling ++ rest) := by
  apply stopsAt_cons
  rcases proper.mark with mark | mark <;> rw [mark] <;> rfl

private theorem head?_spelling_ne_point (proper : exponent.IsProper) (rest : List Char) :
    (exponent.spelling ++ rest).head? ≠ some '.' := by
  rcases proper.mark with mark | mark <;> simp [spelling, mark]

end Exponent

/-!
## Numerals in front of a text
-/

def continuesNumeral (c : Char) : Bool :=
  c.isDigit || c == '.' || c == 'e' || c == 'E'

private theorem StopsAt.digits {rest : List Char} (stops : StopsAt continuesNumeral rest) :
    StopsAt Char.isDigit rest := by
  intro c head
  have ends := stops c head
  simp only [continuesNumeral, Bool.or_eq_false_iff] at ends
  exact ends.1.1.1

private theorem Exponent.scan?_eq_none {rest : List Char} (stops : StopsAt continuesNumeral rest) :
    Exponent.scan? rest = none := by
  cases rest with
  | nil => rfl
  | cons c rest =>
      have ends := stops c rfl
      simp only [continuesNumeral, Bool.or_eq_false_iff, beq_eq_false_iff_ne] at ends
      simp [scan?, ends.1.2, ends.2]

namespace Numeral

private theorem scanFraction?_eq_none {rest : List Char} (point : rest.head? ≠ some '.') :
    scanFraction? rest = none := by
  unfold scanFraction?
  split
  · exact absurd rfl point
  · rfl

private theorem withExponent_eq {rest : List Char} (stops : StopsAt continuesNumeral rest)
    (whole : List Char) (fraction : Option (List Char)) :
    withExponent whole fraction rest = ({ whole, fraction, exponent := none }, rest) := by
  rw [withExponent, Exponent.scan?_eq_none stops]

/-- The spelling of a fraction that may be missing. -/
def fractionSpelling : Option (List Char) → List Char
  | some digits => '.' :: digits
  | none => []

/-- The spelling of an exponent that may be missing. -/
def exponentSpelling : Option Exponent → List Char
  | some exponent => exponent.spelling
  | none => []

theorem spelling_eq (whole : List Char) (fraction : Option (List Char))
    (exponent : Option Exponent) :
    spelling { whole, fraction, exponent } =
      whole ++ (fractionSpelling fraction ++ exponentSpelling exponent) := by
  cases fraction <;> cases exponent <;> simp [spelling, fractionSpelling, exponentSpelling]

section Parts

variable {whole digits : List Char} {exponent : Option Exponent}

private theorem spelling_whole (whole : List Char) (exponent : Option Exponent) (rest : List Char) :
    spelling { whole, fraction := none, exponent } ++ rest =
      whole ++ (exponentSpelling exponent ++ rest) := by
  simp [spelling_eq, fractionSpelling]

private theorem spelling_fraction (whole digits : List Char) (exponent : Option Exponent)
    (rest : List Char) :
    spelling { whole, fraction := some digits, exponent } ++ rest =
      whole ++ '.' :: (digits ++ (exponentSpelling exponent ++ rest)) := by
  simp [spelling_eq, fractionSpelling]

private theorem scan?_whole (nonempty : whole ≠ []) (inside : ∀ c ∈ whole, c.isDigit = true)
    (rest : List Char) :
    scan? (whole ++ rest) =
      match scanFraction? (rest.dropWhile Char.isDigit) with
      | some (digits, after) =>
          some (withExponent (whole ++ rest.takeWhile Char.isDigit) (some digits) after)
      | none =>
          some (withExponent (whole ++ rest.takeWhile Char.isDigit) none
            (rest.dropWhile Char.isDigit)) := by
  have found : whole ++ rest.takeWhile Char.isDigit ≠ [] := by simp [nonempty]
  rw [scan?, List.takeWhile_append_of_pos inside, List.dropWhile_append_of_pos inside]
  cases scanFraction? (rest.dropWhile Char.isDigit) with
  | none => exact if_pos found
  | some fraction => rfl

private theorem scan?_fraction (inside : ∀ c ∈ whole, c.isDigit = true) (nonempty : digits ≠ [])
    (digitsInside : ∀ c ∈ digits, c.isDigit = true) (rest : List Char) :
    scan? (whole ++ '.' :: (digits ++ rest)) =
      some (withExponent whole (some (digits ++ rest.takeWhile Char.isDigit))
        (rest.dropWhile Char.isDigit)) := by
  have point : StopsAt Char.isDigit ('.' :: (digits ++ rest)) := stopsAt_cons rfl _
  have found : digits ++ rest.takeWhile Char.isDigit ≠ [] := by simp [nonempty]
  rw [scan?, takeWhile_run inside point, dropWhile_run inside point, scanFraction?,
    List.takeWhile_append_of_pos digitsInside, List.dropWhile_append_of_pos digitsInside,
    if_pos found]

/-!
## Exactly a numeral
-/

variable {rest : List Char}

private theorem stopsAt_exponentSpelling (proper : ∀ found ∈ exponent, found.IsProper)
    (stops : StopsAt Char.isDigit rest) :
    StopsAt Char.isDigit (exponentSpelling exponent ++ rest) := by
  cases exponent with
  | none => exact stops
  | some exponent => exact Exponent.stopsAt_spelling (proper exponent rfl) rest

private theorem scanFraction?_exponentSpelling (proper : ∀ found ∈ exponent, found.IsProper)
    (stops : StopsAt continuesNumeral rest) :
    scanFraction? (exponentSpelling exponent ++ rest) = none := by
  apply scanFraction?_eq_none
  cases exponent with
  | none =>
      intro head
      cases stops '.' head
  | some exponent => exact Exponent.head?_spelling_ne_point (proper exponent rfl) rest

private theorem withExponent_exact (proper : ∀ found ∈ exponent, found.IsProper)
    (stops : StopsAt continuesNumeral rest) (whole : List Char) (fraction : Option (List Char)) :
    withExponent whole fraction (exponentSpelling exponent ++ rest) =
      ({ whole, fraction, exponent }, rest) := by
  cases exponent with
  | none => exact withExponent_eq stops whole fraction
  | some exponent =>
      rw [exponentSpelling, withExponent, Exponent.scan?_append (proper exponent rfl),
        Exponent.extend, stops.digits.takeWhile, stops.digits.dropWhile, List.append_nil]

end Parts

/-- A numeral is found in front of whatever does not continue it. -/
theorem scan?_spelling {numeral : Numeral} (proper : numeral.IsProper) {rest : List Char}
    (stops : StopsAt continuesNumeral rest) :
    scan? (numeral.spelling ++ rest) = some (numeral, rest) := by
  obtain ⟨whole, fraction, exponent⟩ := numeral
  obtain ⟨inside, fractionProper, exponentProper, nonempty⟩ := proper
  have ends := stopsAt_exponentSpelling exponentProper stops.digits
  cases fraction with
  | none =>
      have begun : whole ≠ [] := nonempty.resolve_right (· rfl)
      rw [spelling_whole, scan?_whole begun inside, ends.takeWhile, ends.dropWhile,
        scanFraction?_exponentSpelling exponentProper stops]
      dsimp only
      rw [withExponent_exact exponentProper stops, List.append_nil]
  | some digits =>
      obtain ⟨found, digitsInside⟩ := fractionProper digits rfl
      rw [spelling_fraction, scan?_fraction inside found digitsInside, ends.takeWhile,
        ends.dropWhile, withExponent_exact exponentProper stops, List.append_nil]

/-- No two numerals are spelled alike. -/
theorem eq_of_spelling_eq {numeral other : Numeral} (proper : numeral.IsProper)
    (otherProper : other.IsProper) (same : numeral.spelling = other.spelling) :
    numeral = other := by
  have first : scan? (numeral.spelling ++ []) = some (numeral, []) := scan?_spelling proper nofun
  have second : scan? (other.spelling ++ []) = some (other, []) := scan?_spelling otherProper nofun
  rw [same, second] at first
  cases first
  rfl

/-!
## The longest numeral
-/

private theorem length_withExponent_le (whole : List Char) (fraction : Option (List Char))
    (text : List Char) : (withExponent whole fraction text).2.length ≤ text.length := by
  unfold withExponent
  split
  next exponent rest scanned =>
    rw [Exponent.append_of_scan? scanned, List.length_append]
    exact Nat.le_add_left _ _
  next => exact Nat.le_refl _

/-- Once all digits are passed over, no more is left than stands behind the exponent. -/
theorem length_withExponent_exponentSpelling_le {exponent : Option Exponent}
    (proper : ∀ found ∈ exponent, found.IsProper) (whole : List Char)
    (fraction : Option (List Char)) (rest : List Char) :
    (withExponent whole fraction
      ((exponentSpelling exponent ++ rest).dropWhile Char.isDigit)).2.length ≤ rest.length := by
  cases exponent with
  | none =>
      exact Nat.le_trans (length_withExponent_le _ _ _) (length_dropWhile_le _ _)
  | some exponent =>
      have begins := Exponent.stopsAt_spelling (proper exponent rfl) rest
      rw [exponentSpelling, begins.dropWhile, withExponent,
        Exponent.scan?_append (proper exponent rfl)]
      exact length_dropWhile_le _ _

private theorem length_le_of_scanFraction? {exponent : Option Exponent}
    {rest digits after : List Char} (proper : ∀ found ∈ exponent, found.IsProper)
    (scanned : scanFraction? ((exponentSpelling exponent ++ rest).dropWhile Char.isDigit) =
      some (digits, after)) : after.length ≤ rest.length := by
  cases exponent with
  | none =>
      have shorter := length_dropWhile_le Char.isDigit rest
      have parts := congrArg List.length (append_of_scanFraction? scanned)
      simp only [exponentSpelling, List.nil_append, List.length_append] at parts
      omega
  | some exponent =>
      rw [exponentSpelling, (Exponent.stopsAt_spelling (proper exponent rfl) rest).dropWhile,
        scanFraction?_eq_none (Exponent.head?_spelling_ne_point (proper exponent rfl) rest)]
        at scanned
      cases scanned

/-- Where a text begins with a numeral, scanning finds one that is at least as long. -/
theorem exists_scan?_append {numeral : Numeral} (proper : numeral.IsProper) (rest : List Char) :
    ∃ found after, scan? (numeral.spelling ++ rest) = some (found, after) ∧
      after.length ≤ rest.length := by
  obtain ⟨whole, fraction, exponent⟩ := numeral
  obtain ⟨inside, fractionProper, exponentProper, nonempty⟩ := proper
  cases fraction with
  | none =>
      have begun : whole ≠ [] := nonempty.resolve_right (· rfl)
      rw [spelling_whole, scan?_whole begun inside]
      split
      next digits after scanned =>
        refine ⟨_, _, rfl, Nat.le_trans (length_withExponent_le _ _ _) ?_⟩
        exact length_le_of_scanFraction? exponentProper scanned
      next =>
        exact ⟨_, _, rfl, length_withExponent_exponentSpelling_le exponentProper _ _ _⟩
  | some digits =>
      obtain ⟨found, digitsInside⟩ := fractionProper digits rfl
      rw [spelling_fraction, scan?_fraction inside found digitsInside]
      exact ⟨_, _, rfl, length_withExponent_exponentSpelling_le exponentProper _ _ _⟩

private theorem isProper_of_withExponent {whole text rest : List Char}
    {fraction : Option (List Char)}
    {numeral : Numeral} (proper : IsProper { whole, fraction, exponent := none })
    (found : withExponent whole fraction text = (numeral, rest)) : numeral.IsProper := by
  obtain ⟨inside, fractionProper, -, nonempty⟩ := proper
  unfold withExponent at found
  split at found
  next exponent after scanned =>
    cases found
    refine ⟨inside, fractionProper, ?_, nonempty⟩
    rintro _ ⟨⟩
    exact Exponent.isProper_of_scan? scanned
  next =>
    cases found
    exact ⟨inside, fractionProper, nofun, nonempty⟩

private theorem digits_of_scanFraction? {text digits rest : List Char}
    (scanned : scanFraction? text = some (digits, rest)) :
    digits ≠ [] ∧ ∀ c ∈ digits, c.isDigit = true := by
  unfold scanFraction? at scanned
  split at scanned
  · dsimp only at scanned
    split at scanned
    next nonempty =>
      cases scanned
      exact ⟨nonempty, fun _ => inClass_of_mem_takeWhile⟩
    next => cases scanned
  · cases scanned

theorem isProper_of_scan? {text rest : List Char} {numeral : Numeral}
    (scanned : scan? text = some (numeral, rest)) : numeral.IsProper := by
  have inside : ∀ c ∈ text.takeWhile Char.isDigit, c.isDigit = true :=
    fun _ => inClass_of_mem_takeWhile
  unfold scan? at scanned
  dsimp only at scanned
  split at scanned
  next digits after fraction =>
    have proper : IsProper
        { whole := text.takeWhile Char.isDigit, fraction := some digits, exponent := none } := by
      refine ⟨inside, ?_, nofun, .inr nofun⟩
      rintro _ ⟨⟩
      exact digits_of_scanFraction? fraction
    exact isProper_of_withExponent proper (Option.some.inj scanned)
  next =>
    split at scanned
    next nonempty =>
      have proper : IsProper
          { whole := text.takeWhile Char.isDigit, fraction := none, exponent := none } :=
        ⟨inside, nofun, nofun, .inl nonempty⟩
      exact isProper_of_withExponent proper (Option.some.inj scanned)
    next => cases scanned

end Numeral

end Calculator
