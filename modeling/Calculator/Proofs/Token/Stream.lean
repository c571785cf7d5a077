import Calculator.Token.Lexer

/-!
# The tokens of a text

What holds of the sequence of tokens as a whole. Every token uses up characters, so cutting a text
never runs out of its bound: the tokens of a text are its first one and the tokens of what follows.
-/

set_option autoImplicit false

namespace Calculator

namespace Token

/-!
## The end of input
-/

/-- The end of input ends the sequence of tokens and is none of them. -/
theorem endOfInput_not_mem_collect {bound text : List Char} {read : List Token}
    (inside : .endOfInput ∉ read) : .endOfInput ∉ collect bound text read := by
  induction bound generalizing text read with
  | nil => simpa [collect] using inside
  | cons _ bound ih =>
      rw [collect]
      split
      next => simpa using inside
      next token rest other scanned =>
        refine ih ?_
        simp only [List.mem_cons, not_or]
        exact ⟨fun same => other same.symm, inside⟩

/-!
## Progress
-/

theorem isNamePart_of_isNameStart {c : Char} (start : isNameStart c = true) :
    isNamePart c = true := by
  simp only [isNameStart, isNamePart, Char.isAlphanum, Bool.or_eq_true] at start ⊢
  exact start.imp_left .inl

private theorem numeral_spelling_ne_nil {text rest : List Char} {numeral : Numeral}
    (scanned : Numeral.scan? text = some (numeral, rest)) : numeral.spelling ≠ [] := by
  have parts (whole : List Char) (fraction : Option (List Char)) (after : List Char) :
      (Numeral.withExponent whole fraction after).1.whole = whole ∧
        (Numeral.withExponent whole fraction after).1.fraction = fraction := by
    unfold Numeral.withExponent
    split <;> exact ⟨rfl, rfl⟩
  unfold Numeral.scan? at scanned
  dsimp only at scanned
  split at scanned
  · rename_i digits after found
    have fraction := (parts (text.takeWhile Char.isDigit) (some digits) after).2
    rw [Option.some.inj scanned] at fraction
    dsimp only at fraction
    simp [Numeral.spelling, fraction]
  · split at scanned
    · rename_i nonempty
      have whole := (parts (text.takeWhile Char.isDigit) none (text.dropWhile Char.isDigit)).1
      rw [Option.some.inj scanned] at whole
      dsimp only at whole
      simp [Numeral.spelling, whole, nonempty]
    · cases scanned

/-- Every token but the end of input uses up characters. -/
theorem lex_length_lt {text rest : List Char} {token : Token}
    (scanned : lex text = (token, rest)) (inside : token ≠ .endOfInput) :
    rest.length < text.length := by
  unfold lex at scanned
  split at scanned
  case h_1 =>
    cases scanned
    exact absurd rfl inside
  case h_10 c tail _ _ _ _ _ _ _ _ =>
    split at scanned
    · rename_i start
      cases scanned
      rw [List.dropWhile_cons_of_pos (isNamePart_of_isNameStart start)]
      exact Nat.lt_succ_of_le (List.dropWhile_sublist _).length_le
    · split at scanned
      · rename_i numeral after found
        cases scanned
        have nonempty := List.length_pos_iff.mpr (numeral_spelling_ne_nil found)
        rw [Numeral.append_of_scan? found, List.length_append]
        omega
      · cases scanned
        exact Nat.lt_succ_self _
  all_goals
    cases scanned
    simp only [List.length_cons]
    omega

theorem next_length_lt {text rest : List Char} {token : Token}
    (scanned : next text = (token, rest)) (inside : token ≠ .endOfInput) :
    rest.length < text.length :=
  Nat.lt_of_lt_of_le (lex_length_lt scanned inside) (List.dropWhile_sublist _).length_le

/-!
## The bound
-/

private theorem collect_cons (character : Char) {bound text rest : List Char} {read : List Token}
    {token : Token} (scanned : next text = (token, rest)) (inside : token ≠ .endOfInput) :
    collect (character :: bound) text read = collect bound rest (token :: read) := by
  rw [collect, scanned]
  cases token <;> first | rfl | exact absurd rfl inside

private theorem collect_eq_append (bound text : List Char) (read : List Token) :
    collect bound text read = read.reverse ++ collect bound text [] := by
  induction bound generalizing text read with
  | nil => simp [collect]
  | cons character bound ih =>
      cases scanned : next text with
      | mk token rest =>
          by_cases ended : token = .endOfInput
          · subst ended
            simp [collect, scanned]
          · rw [collect_cons character scanned ended, collect_cons character scanned ended, ih,
              ih rest [token]]
            simp

private theorem collect_eq_nil {bound text : List Char} (ended : (next text).1 = .endOfInput) :
    collect bound text [] = [] := by
  cases bound with
  | nil => rfl
  | cons character bound =>
      cases scanned : next text with
      | mk token rest =>
          rw [scanned] at ended
          cases ended
          simp [collect, scanned]

/-- Bounds that are as long as the text all do as well. -/
theorem collect_eq_of_length_le {bound other text : List Char}
    (enough : text.length ≤ bound.length) (otherEnough : text.length ≤ other.length) :
    collect bound text [] = collect other text [] := by
  induction bound generalizing other text with
  | nil =>
      obtain rfl : text = [] := List.length_eq_zero_iff.mp (Nat.le_zero.mp enough)
      rw [collect_eq_nil rfl, collect_eq_nil rfl]
  | cons character bound ih =>
      cases scanned : next text with
      | mk token rest =>
          by_cases ended : token = .endOfInput
          · have last : (next text).1 = .endOfInput := by rw [scanned, ended]
            rw [collect_eq_nil last, collect_eq_nil last]
          have shorter := next_length_lt scanned ended
          cases other with
          | nil => exact absurd (Nat.lt_of_lt_of_le shorter otherEnough) (Nat.not_lt_zero _)
          | cons mark other =>
              rw [List.length_cons] at enough otherEnough
              have same : collect bound rest [] = collect other rest [] :=
                ih (by omega) (by omega)
              rw [collect_cons character scanned ended, collect_cons mark scanned ended,
                collect_eq_append bound, collect_eq_append other, same]

def stream (text : List Char) : List Token :=
  collect text text []

theorem stream_eq_nil {text : List Char} (ended : (next text).1 = .endOfInput) :
    stream text = [] :=
  collect_eq_nil ended

theorem stream_eq_cons {text rest : List Char} {token : Token}
    (scanned : next text = (token, rest)) (inside : token ≠ .endOfInput) :
    stream text = token :: stream rest := by
  have shorter := next_length_lt scanned inside
  cases text with
  | nil => exact absurd shorter (Nat.not_lt_zero _)
  | cons character text =>
      rw [List.length_cons] at shorter
      rw [stream, collect_cons character scanned inside, collect_eq_append,
        collect_eq_of_length_le (Nat.le_of_lt_succ shorter) (Nat.le_refl _)]
      rfl

/-- Blanks in front of a token mean nothing. -/
theorem stream_blank {c : Char} (blank : isBlank c = true) (text : List Char) :
    stream (c :: text) = stream text := by
  have same : next (c :: text) = next text := by
    rw [next, List.dropWhile_cons_of_pos blank, next]
  cases scanned : next text with
  | mk token rest =>
      by_cases ended : token = .endOfInput
      · rw [stream_eq_nil (by rw [same, scanned, ended]), stream_eq_nil (by rw [scanned, ended])]
      · rw [stream_eq_cons (same.trans scanned) ended, stream_eq_cons scanned ended]

end Token

theorem tokenize_eq_stream (source : String) : tokenize source = Token.stream source.toList := rfl

theorem endOfInput_not_mem_tokenize (source : String) : .endOfInput ∉ tokenize source :=
  Token.endOfInput_not_mem_collect List.not_mem_nil

end Calculator
