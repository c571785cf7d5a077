import Calculator.Proofs.Parser.Diagnostics
import Calculator.Proofs.Printing.Spelling
import Calculator.Proofs.Printing.TokenTexts

/-!
# What of a text is quoted as it is written

A token keeps the value of a number and not its spelling. So the text of a token is the lexeme that
it was read from unless this is a numeral other than the one printed for its double. A token that
begins no expression is no number and quoted as it is written. A token that stands in the place of a
closing parenthesis may be a number, and then it may be quoted by digits that the text does not have.
-/

set_option autoImplicit false

namespace Calculator

open Token

/-!
## Texts of tokens
-/

/-- The text of the token that a diagnostic is about. -/
def ParseError.offending : ParseError → Option String
  | .noExpression token => some token
  | .unexpected _ found => some found
  | .illegal text => some text
  | .noOperator token => some token
  | .tooDeep _ => none

section Texts

variable {text lexeme : List Char} {token : Token}

private theorem Token.offending_refusal (token : Token) :
    token.refusal.offending = some token.text := by
  cases token <;> rfl

private theorem StandsFor.text_eq (stands : StandsFor lexeme token)
    (other : ∀ numeral : Numeral, numeral.IsProper → numeral.spelling ≠ lexeme) :
    token.text.toList = lexeme := by
  cases stands with
  | number proper => exact absurd rfl (other _ proper)
  | name => rw [Token.text, String.toList_ofList]
  | symbol listed => exact text_of_mem_symbols listed

theorem Begins.text_eq (begins : Begins text lexeme token)
    (other : ∀ numeral : Numeral, numeral.IsProper → numeral.spelling ≠ lexeme) :
    token.text.toList = lexeme := by
  cases begins with
  | longest _ _ _ stands => exact stands.text_eq other
  | illegal => rw [Token.text, String.toList_ofList]

/-- A token is quoted as it is written if and only if its lexeme is no numeral, or one that is printed
as it is spelled. -/
theorem Begins.text_eq_iff (begins : Begins text lexeme token) :
    token.text.toList = lexeme ↔
      ∀ numeral : Numeral, numeral.IsProper → numeral.spelling = lexeme → numeral.IsShortest := by
  constructor
  · intro quoted numeral proper spelled
    subst spelled
    rw [begins.token_eq (.number proper), Token.text] at quoted
    exact (shortestText_toFloat_eq_iff proper).mp quoted
  · intro shortest
    by_cases numeric : ∃ numeral : Numeral, numeral.IsProper ∧ numeral.spelling = lexeme
    · obtain ⟨numeral, proper, rfl⟩ := numeric
      rw [begins.token_eq (.number proper), Token.text]
      exact (shortestText_toFloat_eq_iff proper).mpr (shortest numeral proper rfl)
    · exact begins.text_eq fun numeral proper same => numeric ⟨numeral, proper, same⟩

/-- What begins no expression is quoted as it is written. -/
theorem Begins.text_eq_of_refused (begins : Begins text lexeme token)
    (refused : token.beginsPhrase = false) : token.text.toList = lexeme := by
  refine begins.text_eq fun numeral proper same => ?_
  subst same
  rw [begins.token_eq (.number proper)] at refused
  cases refused

end Texts

/-!
## Whole texts
-/

/-- Each token of a text is quoted as it is written if and only if what it was read from is no
numeral, or one that is printed as it is spelled. Each diagnostic about a token quotes such a token,
or names the end of input, and all but the unexpected ones are quoted as they are written. -/
theorem quoted_as_written_iff_shortest (source : String) :
    ∃ pieces trailing, Cuts source.toList pieces trailing ∧
      tokenize source = pieces.map Piece.token ∧
      (∀ piece ∈ pieces, piece.token.text.toList = piece.lexeme ↔
        ∀ numeral : Numeral, numeral.IsProper → numeral.spelling = piece.lexeme →
          numeral.IsShortest) ∧
      ∀ error ∈ diagnostics source, ∀ text ∈ error.offending,
        text = "EOF" ∨ ∃ piece ∈ pieces, piece.token.text = text ∧
          ((∃ expected, error = .unexpected expected text) ∨ piece.lexeme = text.toList) := by
  obtain ⟨pieces, trailing, cuts⟩ := exists_cuts source.toList
  have tokens : tokenize source = pieces.map Piece.token :=
    (tokenize_eq_stream source).trans cuts.stream_eq
  have begins : ∀ piece ∈ pieces, ∃ rest, Begins rest piece.lexeme piece.token := by
    intro piece member
    obtain ⟨before, behind, shape⟩ := List.append_of_mem member
    exact ⟨_, cuts.munches before piece behind shape⟩
  refine ⟨pieces, trailing, cuts, tokens, fun piece member => ?_, ?_⟩
  · obtain ⟨rest, first⟩ := begins piece member
    exact first.text_eq_iff
  intro error recorded text offending
  rcases exists_token_of_diagnostic recorded with rfl | ⟨token, member | rfl, cause⟩
  · cases offending
  · rw [tokens] at member
    obtain ⟨piece, among, rfl⟩ := List.mem_map.mp member
    obtain ⟨rest, first⟩ := begins piece among
    rcases cause with ⟨rfl, refused⟩ | rfl
    · rw [Token.offending_refusal] at offending
      cases offending
      exact .inr ⟨piece, among, rfl, .inr (first.text_eq_of_refused refused).symm⟩
    · cases offending
      exact .inr ⟨piece, among, rfl, .inl ⟨_, rfl⟩⟩
  · rcases cause with ⟨rfl, -⟩ | rfl
    · cases offending
      exact .inl rfl
    · cases offending
      exact .inl rfl

example : (tokenize "1.50 007 2E3 1e999").map Token.text = ["1.5", "7", "2000", "inf"] := by
  decide +kernel

/-- Where `.5` follows an open parenthesis, a zero is quoted that the text does not have. -/
theorem half_is_quoted_with_zero :
    ∃ pieces trailing, Cuts "(1 .5".toList pieces trailing ∧
      tokenize "(1 .5" = pieces.map Piece.token ∧
      (∃ piece ∈ pieces, piece.lexeme = ".5".toList ∧ piece.token.text = "0.5") ∧
      diagnostics "(1 .5" = [.unexpected ")" "0.5"] ∧
      ¬ "0.5".toList <:+: "(1 .5".toList := by
  let one : Numeral := ⟨['1'], none, none⟩
  let half : Numeral := ⟨[], some ['5'], none⟩
  have opening : StandsFor ['('] .leftParen := .symbol (by simp [symbols])
  have oneProper : one.IsProper := by decide
  have halfProper : half.IsProper := by decide
  have behind : Cuts ([' '] ++ (half.spelling ++ []))
      [⟨[' '], half.spelling, .number half.toFloat⟩] [] :=
    .cons (List.all_eq_true.mp rfl) (.of_lex (.number halfProper) rfl) (.nil (by simp))
  have inside : Cuts ([] ++ (one.spelling ++ ([' '] ++ (half.spelling ++ []))))
      [⟨[], one.spelling, .number one.toFloat⟩, ⟨[' '], half.spelling, .number half.toFloat⟩] [] :=
    .cons (List.forall_mem_nil _) (.of_lex (.number oneProper) rfl) behind
  have cuts : Cuts "(1 .5".toList
      [⟨[], ['('], .leftParen⟩, ⟨[], one.spelling, .number one.toFloat⟩,
        ⟨[' '], half.spelling, .number half.toFloat⟩] [] :=
    .cons (List.forall_mem_nil _) (.of_lex opening rfl) inside
  refine ⟨_, _, cuts, (tokenize_eq_stream _).trans cuts.stream_eq,
    ⟨_, List.mem_cons_of_mem _ (List.mem_cons_of_mem _ List.mem_cons_self), rfl, ?_⟩, ?_, ?_⟩
  · decide +kernel
  · decide +kernel
  · decide

end Calculator
