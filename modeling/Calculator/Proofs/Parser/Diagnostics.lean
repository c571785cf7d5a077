import Calculator.Proofs.Number.Reading
import Calculator.Proofs.Parser.Agreement
import Calculator.Proofs.Parser.Failure
import Calculator.Proofs.Parser.History

/-!
# The diagnostics of a text

Which diagnostics reading a text can record, and how they follow one another. An error that is told
by the lookahead leaves it to the next turn, so a token that begins no expression is then refused
there. An error at the end of input leaves nothing to read, so it is the last one.
-/

set_option autoImplicit false

namespace Calculator

/-!
## What a diagnostic quotes
-/

/-- The texts of tokens in a diagnostic. -/
def ParseError.quoted : ParseError → List String
  | .noExpression token => [token]
  | .unexpected expected found => [expected, found]
  | .illegal text => [text]
  | .noOperator token => [token]
  | .tooDeep _ => []

/-- A token that neither continues an expression nor closes a parenthesis. -/
inductive Token.Interrupts : Token → Prop where
  | number {value} : Interrupts (.number value)
  | identifier {name} : Interrupts (.identifier name)
  | comma : Interrupts .comma
  | illegal {text} : Interrupts (.illegal text)
  | endOfInput : Interrupts .endOfInput

/-- What reading can find wrong with a text. -/
inductive ParseError.IsDiagnostic : ParseError → Prop where
  | illegal {c : Char} : IsDiagnostic (.illegal (String.ofList [c]))
  | noExpression {token} :
      token ∈ ["*", "**", "/", ")", ",", "EOF"] → IsDiagnostic (.noExpression token)
  | unexpected {token : Token} : token.Interrupts → IsDiagnostic (.unexpected ")" token.text)
  | tooDeep : IsDiagnostic (.tooDeep 256)

private theorem Token.interrupts_of_not_closing {token : Token}
    (loose : Precedence.of token ≤ .lowest)
    (unclosed : token ≠ .rightParen) : token.Interrupts := by
  cases token with
  | number => exact .number
  | identifier => exact .identifier
  | comma => exact .comma
  | illegal => exact .illegal
  | endOfInput => exact .endOfInput
  | rightParen => exact absurd rfl unclosed
  | plus | minus | star | starStar | slash | leftParen => exact absurd loose (by decide)

private theorem Token.refusal_isDiagnostic {token : Token} (other : token.beginsPhrase = false)
    (single : ∀ text, token = .illegal text → ∃ c, text = String.ofList [c]) :
    token.refusal.IsDiagnostic := by
  cases token with
  | number | identifier | plus | minus | leftParen => cases other
  | illegal text =>
      rcases single text rfl with ⟨c, shape⟩
      rw [shape]
      exact .illegal
  | star | starStar | slash | rightParen | comma | endOfInput =>
      exact .noExpression (by simp [text])

/-!
## Texts of tokens
-/

/-- A number begins with a digit, a sign or a small letter, except for what is no number. -/
theorem shortestText_ne_end (value : Float) : shortestText value ≠ "EOF" := by
  intro same
  unfold shortestText at same
  cases stands : Binary64.ofFloat value with
  | nan => simp [stands, Binary64.text] at same
  | infinite negative => cases negative <;> simp [stands, Binary64.text] at same
  | finite negative mantissa shift =>
      rw [stands, Binary64.text] at same
      have proper := (shortest mantissa shift).isPlain_numeral.isProper
      rcases Token.spelling_eq_cons proper with ⟨c, tail, shape, -, other, -⟩
      have symbols := congrArg String.toList same
      rw [String.toList_append, Decimal.toList_text, shape] at symbols
      cases negative with
      | true => simp at symbols
      | false =>
          have first : c = 'E' := by
            have whole : c :: tail = ['E', 'O', 'F'] := by simpa using symbols
            exact (List.cons.inj whole).1
          exact other (by rw [first]; decide)

private theorem Token.eq_endOfInput_of_text {token : Token} (named : token.text = "EOF")
    (noName : token ≠ .identifier "EOF")
    (single : ∀ text, token = .illegal text → ∃ c, text = String.ofList [c]) :
    token = .endOfInput := by
  cases token with
  | number value => exact absurd named (shortestText_ne_end value)
  | identifier name => exact absurd (congrArg Token.identifier named) noName
  | illegal text =>
      rcases single text rfl with ⟨c, rfl⟩
      have symbols := congrArg String.toList named
      simp [Token.text] at symbols
  | endOfInput => rfl
  | _ => simp [text] at named

/-- A character that begins no token is an illegal token of its own. -/
theorem exists_char_of_illegal {source text : String} (member : .illegal text ∈ tokenize source) :
    ∃ c, text = String.ofList [c] := by
  obtain ⟨rest, lexeme, begins⟩ := exists_begins_of_mem member
  cases begins with
  | longest _ _ _ stands =>
      cases stands with
      | symbol listed => simp [symbols] at listed
  | illegal => exact ⟨_, rfl⟩

/-!
## Where turns fail
-/

namespace Turns

variable {parser final : Parser} {turns earlier later : List Turn} {segment : List Token}
variable {error : ParseError}

private theorem tokens_eq (run : Turns parser turns final) :
    parser.tokens = turns.flatMap Turn.segment ++ final.tokens := by
  induction run with
  | done => rfl
  | statement _ _ cut _ ih => simp [cut, ih]
  | @failure _ after _ _ error _ _ _ cut _ ih =>
      have same : after.advance.tokens = (after.record error).advance.tokens := rfl
      simp [cut, same, ih]

/-- A turn that fails has stopped at some token. The next turn begins behind that token. -/
theorem exists_stop (run : Turns parser (earlier ++ ⟨segment, .error error⟩ :: later) final)
    (resting : parser.depth = 0) :
    ∃ (front : List Token) (after : Parser),
      Stops 0 front after.current after.lookahead error ∧ after.tokens <:+ parser.tokens ∧
      after.depth = 0 ∧ Turns (after.record error).advance later final := by
  induction earlier generalizing parser with
  | nil =>
      cases run with
      | @failure _ after _ _ _ _ _ ran _ further =>
          have leads := (parseExpression_consumesOnly .lowest).of_error ran
          rcases parseExpression_fails ran with ⟨front, -, stops⟩
          rw [resting] at stops
          exact ⟨front, after, stops, leads.tokens, leads.depth.trans resting, further⟩
  | cons turn earlier ih =>
      cases run with
      | @statement _ after _ _ _ _ _ ran _ further =>
          have leads := (parseExpression_consumesOnly .lowest).of_ok ran
          have behind := leads.trans (.advance after)
          rcases ih further (behind.depth.trans resting) with ⟨front, stop, stops, inside, rest⟩
          exact ⟨front, stop, stops, inside.trans behind.tokens, rest⟩
      | @failure _ after _ _ _ _ _ ran _ further =>
          have leads := (parseExpression_consumesOnly .lowest).of_error ran
          have behind := leads.trans (.advance after)
          rcases ih further (behind.depth.trans resting) with ⟨front, stop, stops, inside, rest⟩
          exact ⟨front, stop, stops, inside.trans behind.tokens, rest⟩

end Turns

private theorem parseExpression_run_refused {parser : Parser} (threshold : Precedence)
    (other : parser.current.beginsPhrase = false) (shallow : parser.depth < maxNesting) :
    parseExpression threshold parser = .error parser.current.refusal parser := by
  have refused (operand : Precedence → ParserM Node) :
      parseClimbing operand threshold parser.descend =
        .error parser.current.refusal parser.descend := by
    rw [parseClimbing_run]
    exact bind_run_error (parsePrimary_run_refused other)
  rw [parseExpression_run]
  exact bind_run_error (nested_run_error shallow (refused _))

/-- Where a token begins no expression, the turn is over with it. -/
theorem Turns.refused {parser final : Parser} {turns : List Turn} (run : Turns parser turns final)
    (resting : parser.depth = 0) (inside : parser.current ≠ .endOfInput)
    (other : parser.current.beginsPhrase = false) :
    ∃ further, turns = ⟨[parser.current], .error parser.current.refusal⟩ :: further := by
  have shallow : parser.depth < maxNesting := by
    rw [resting]
    decide
  have refused := parseExpression_run_refused .lowest other shallow
  cases run with
  | done ended => exact absurd ended inside
  | statement _ ran => cases refused.symm.trans ran
  | @failure _ _ _ segment _ further _ ran cut _ =>
      cases refused.symm.trans ran
      rcases Parser.eq_cons_of_current rfl inside with ⟨tail, shape⟩
      have whole : segment = [parser.current] := by
        have same : [parser.current] ++ tail = segment ++ tail := by
          simpa [shape, Parser.advance] using cut
        exact (List.append_cancel_right same).symm
      exact ⟨further, by rw [whole]⟩

/-!
## One failing turn
-/

private theorem Stops.cases_error {enclosing : Nat} {front : List Token} {current lookahead : Token}
    {error : ParseError} (stops : Stops enclosing front current lookahead error) :
    error = .tooDeep maxNesting ∨
      (error = current.refusal ∧ current.beginsPhrase = false) ∨
      (error = .unexpected ")" lookahead.text ∧ lookahead.Interrupts) := by
  cases stops with
  | refused | tooTall => exact .inl rfl
  | noOperand _ _ other => exact .inr (.inl ⟨rfl, other⟩)
  | unclosed _ _ _ _ _ loose unended =>
      exact .inr (.inr ⟨rfl, Token.interrupts_of_not_closing loose unended⟩)

private theorem Token.refusal_ne_unexpected (token : Token) (expected found : String) :
    token.refusal ≠ .unexpected expected found := by
  cases token <;> simp [refusal]

theorem Token.quoted_refusal (token : Token) : token.refusal.quoted = [token.text] := by
  cases token <;> rfl

section Sources

variable {source : String} {parser final : Parser} {turns earlier later : List Turn}
variable {segment : List Token} {error : ParseError}

private theorem Parser.current_mem_or_ended (parser : Parser) :
    parser.current ∈ parser.tokens ∨ parser.current = .endOfInput := by
  cases shape : parser.tokens with
  | nil => exact .inr (by simp [current, shape])
  | cons token tail => exact .inl (by simp [current, shape])

private theorem Parser.lookahead_mem_or_ended (parser : Parser) :
    parser.lookahead ∈ parser.tokens ∨ parser.lookahead = .endOfInput := by
  rcases parser.advance.current_mem_or_ended with member | ended
  · exact .inl (List.mem_of_mem_tail member)
  · exact .inr ended

/-- The tokens that a parser of a text sees. -/
theorem exists_char_of_seen {token : Token} (suffix : parser.tokens <:+ tokenize source)
    (seen : token ∈ parser.tokens ∨ token = .endOfInput) (text : String)
    (illegal : token = .illegal text) : ∃ c, text = String.ofList [c] := by
  subst illegal
  rcases seen with member | ended
  · exact exists_char_of_illegal (suffix.mem member)
  · cases ended

variable (resting : parser.Resting source)
include resting

private theorem Turns.isDiagnostic
    (run : Turns parser (earlier ++ ⟨segment, .error error⟩ :: later) final) :
    error.IsDiagnostic := by
  rcases run.exists_stop resting.depth with ⟨front, after, stops, inside, -⟩
  have single := exists_char_of_seen (inside.trans resting.tokens) after.current_mem_or_ended
  rcases stops.cases_error with same | ⟨same, other⟩ | ⟨same, interrupts⟩
  · rw [same]
    exact .tooDeep
  · rw [same]
    exact Token.refusal_isDiagnostic other single
  · rw [same]
    exact .unexpected interrupts

/-- An unexpected token is the one that the next turn begins with. -/
theorem Turns.unexpected {expected found : String}
    (run : Turns parser (earlier ++ ⟨segment, .error (.unexpected expected found)⟩ :: later) final)
    (ended : final.tokens = []) :
    ∃ token : Token, token = (later.flatMap Turn.segment).headD .endOfInput ∧
      expected = ")" ∧ found = token.text ∧ token.Interrupts ∧
      ((∃ text, token = .illegal text) ∨ token = .comma →
        ∃ further, later = ⟨[token], .error token.refusal⟩ :: further) := by
  rcases run.exists_stop resting.depth with ⟨front, after, stops, inside, depth, rest⟩
  have tokens : (later.flatMap Turn.segment).headD .endOfInput = after.lookahead := by
    have whole := rest.tokens_eq
    rw [ended, List.append_nil] at whole
    rw [← whole]
    rfl
  refine ⟨after.lookahead, tokens.symm, ?_⟩
  rcases stops.cases_error with same | ⟨same, -⟩ | ⟨same, interrupts⟩
  · cases same
  · exact absurd same.symm (Token.refusal_ne_unexpected _ _ _)
  · cases same
    refine ⟨rfl, rfl, interrupts, fun kind => rest.refused depth ?_ ?_⟩
    · show after.lookahead ≠ .endOfInput
      rcases kind with ⟨text, kind⟩ | kind <;> simp [kind]
    · show after.lookahead.beginsPhrase = false
      rcases kind with ⟨text, kind⟩ | kind <;> rw [kind] <;> rfl

/-- Behind an error at the end of input there are no more turns. -/
theorem Turns.eq_nil_of_quoted
    (run : Turns parser (earlier ++ ⟨segment, .error error⟩ :: later) final)
    (noName : .identifier "EOF" ∉ tokenize source) (named : "EOF" ∈ error.quoted) :
    later = [] := by
  rcases run.exists_stop resting.depth with ⟨front, after, stops, inside, -, rest⟩
  have suffix := inside.trans resting.tokens
  have noEnd : .endOfInput ∉ after.tokens :=
    fun member => endOfInput_not_mem_tokenize source (suffix.mem member)
  have eq_end {token : Token} (seen : token ∈ after.tokens ∨ token = .endOfInput)
      (text : token.text = "EOF") : token = .endOfInput := by
    refine Token.eq_endOfInput_of_text text ?_ (exists_char_of_seen suffix seen)
    rintro rfl
    exact noName (suffix.mem (seen.resolve_right (by simp)))
  refine rest.eq_nil ?_
  show after.tokens.tail = []
  rcases stops.cases_error with same | ⟨same, -⟩ | ⟨same, -⟩
  · rw [same] at named
    cases named
  · rw [same, Token.quoted_refusal, List.mem_singleton] at named
    have current := eq_end after.current_mem_or_ended named.symm
    cases shape : after.tokens with
    | nil => rfl
    | cons token tail =>
        rw [Parser.current_eq shape] at current
        exact absurd (by simp [shape, current]) noEnd
  · rw [same] at named
    have found : after.lookahead.text = "EOF" := by simpa [ParseError.quoted, eq_comm] using named
    have lookahead := eq_end after.lookahead_mem_or_ended found
    cases shape : after.tokens.tail with
    | nil => rfl
    | cons token tail =>
        have first : after.lookahead = token := by simp [Parser.lookahead, shape]
        have member : token ∈ after.tokens := List.mem_of_mem_tail (by simp [shape])
        rw [← first, lookahead] at member
        exact absurd member noEnd

end Sources

/-!
## A whole text
-/

private theorem exists_turn_of_errors {turns : List Turn} {before behind : List ParseError}
    {error : ParseError} (recorded : turns.filterMap Turn.error? = before ++ error :: behind) :
    ∃ earlier segment later, turns = earlier ++ ⟨segment, .error error⟩ :: later ∧
      before = earlier.filterMap Turn.error? ∧ behind = later.filterMap Turn.error? := by
  rcases List.filterMap_eq_append_iff.mp recorded with ⟨front, back, rfl, first, second⟩
  rcases List.filterMap_eq_cons_iff.mp second with
    ⟨clean, ⟨segment, outcome⟩, later, rfl, silent, same, rest⟩
  cases outcome with
  | ok => cases same
  | error =>
      cases same
      refine ⟨front ++ clean, segment, later, by simp, ?_, rest.symm⟩
      rw [List.filterMap_append, first, List.filterMap_eq_nil_iff.mpr silent, List.append_nil]

/-- A diagnostic is about the nesting, or about a token of the text or its end. -/
theorem exists_token_of_diagnostic {source : String} {error : ParseError}
    (recorded : error ∈ diagnostics source) :
    error = .tooDeep maxNesting ∨
      ∃ token : Token, (token ∈ tokenize source ∨ token = .endOfInput) ∧
        ((error = token.refusal ∧ token.beginsPhrase = false) ∨
          error = .unexpected ")" token.text) := by
  obtain ⟨turns, final, run, -, errors⟩ := exists_turns_diagnostics source
  rw [errors] at recorded
  obtain ⟨before, behind, whole⟩ := List.append_of_mem recorded
  obtain ⟨earlier, segment, later, rfl, -, -⟩ := exists_turn_of_errors whole
  obtain ⟨front, after, stops, suffix, -, -⟩ := run.exists_stop rfl
  rcases stops.cases_error with same | refused | ⟨same, -⟩
  · exact .inl same
  · exact .inr ⟨_, after.current_mem_or_ended.imp_left (suffix.mem ·), .inl refused⟩
  · exact .inr ⟨_, after.lookahead_mem_or_ended.imp_left (suffix.mem ·), .inr same⟩

/-- Whatever a parser of a text has been asked before, reading the rest of the text records nothing
but the diagnostics that there are. Where an illegal token or a comma stands in the place of a
closing parenthesis, the next diagnostic is that this token begins no expression. A diagnostic that
names the end of input is the last one, unless the text has a name spelled like it. -/
theorem diagnostics_follow_tokens (source : String) (asked : List Parser.Question) :
    ∃ turns, Turns ((Parser.ofSource source).afterQuestions asked) turns
        ((Parser.ofSource source).afterQuestions asked).program.2 ∧
      turns.flatMap Turn.segment = ((Parser.ofSource source).afterQuestions asked).tokens ∧
      ((Parser.ofSource source).afterQuestions asked).program.2.errors.toList =
        ((Parser.ofSource source).afterQuestions asked).errors.toList ++
          turns.filterMap Turn.error? ∧
      (∀ error ∈ turns.filterMap Turn.error?, error.IsDiagnostic) ∧
      (∀ before expected found behind,
        turns.filterMap Turn.error? = before ++ .unexpected expected found :: behind →
        ∃ earlier segment later token,
          turns = earlier ++ ⟨segment, .error (.unexpected expected found)⟩ :: later ∧
          before = earlier.filterMap Turn.error? ∧
          token = (later.flatMap Turn.segment).headD .endOfInput ∧
          expected = ")" ∧ found = token.text ∧ token.Interrupts ∧
          (∀ text, token = .illegal text → ∃ further, behind = .illegal text :: further) ∧
          (token = .comma → ∃ further, behind = .noExpression "," :: further)) ∧
      (.identifier "EOF" ∉ tokenize source → ∀ before error behind,
        turns.filterMap Turn.error? = before ++ error :: behind → "EOF" ∈ error.quoted →
        behind = []) := by
  have resting := (Parser.Resting.ofSource source).afterQuestions asked
  rcases program_readsInTurns resting.inside with ⟨turns, reads⟩
  refine ⟨turns, reads.run, reads.segments, reads.errors, ?_, ?_, ?_⟩
  · intro error member
    rcases List.append_of_mem member with ⟨before, behind, recorded⟩
    rcases exists_turn_of_errors recorded with ⟨earlier, segment, later, rfl, -, -⟩
    exact Turns.isDiagnostic resting reads.run
  · intro before expected found behind recorded
    rcases exists_turn_of_errors recorded with ⟨earlier, segment, later, rfl, front, rest⟩
    rcases Turns.unexpected resting reads.run reads.tokens with
      ⟨token, first, closing, text, interrupts, cascade⟩
    refine ⟨earlier, segment, later, token, rfl, front, first, closing, text, interrupts, ?_, ?_⟩
    · rintro illegal rfl
      rcases cascade (.inl ⟨illegal, rfl⟩) with ⟨further, rfl⟩
      exact ⟨_, rest⟩
    · rintro rfl
      rcases cascade (.inr rfl) with ⟨further, rfl⟩
      exact ⟨_, rest⟩
  · intro noName before error behind recorded named
    rcases exists_turn_of_errors recorded with ⟨earlier, segment, later, rfl, -, rest⟩
    rw [rest, Turns.eq_nil_of_quoted resting reads.run noName named, List.filterMap_nil]

end Calculator
