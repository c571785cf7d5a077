import Calculator.Proofs.Parser.Unfinished
import Calculator.Proofs.Parser.Recovery

/-!
# Where reading fails

A reading that fails has come behind tokens of an unfinished expression, and its innermost operand
cannot go on: it does not begin, its parenthesis is not closed, or it goes over the limit. Each rule
of the parser makes the unfinished expression longer by what it reads in front of an operand.

An unfinished expression begins one that can be completed, and with the token at which reading fails
it does not. So no error could have been told earlier.
-/

set_option autoImplicit false

namespace Calculator

/-!
## How reading stops
-/

/-- What is wrong with a token where a phrase should begin. -/
def Token.refusal : Token → ParseError
  | .illegal text => .illegal text
  | token => .noExpression token.text

/-- Why reading cannot go on from a token, behind the tokens in front of it. -/
inductive Stops (enclosing : Nat) (front : List Token) (current lookahead : Token) :
    ParseError → Prop where
  /-- An operand is due inside of as many expressions as there may be. -/
  | refused {depth threshold position} :
      Awaits enclosing front depth threshold position → maxNesting ≤ depth →
      Stops enclosing front current lookahead (.tooDeep maxNesting)
  /-- The current token does not begin the operand that is due. -/
  | noOperand {depth threshold position} :
      Awaits enclosing front depth threshold position →
      (position.due = .argument → current ≠ .rightParen) → current.beginsPhrase = false →
      Stops enclosing front current lookahead current.refusal
  /-- The lookahead neither continues what is in parentheses nor closes them. -/
  | unclosed {outer depth threshold position bracket opened nonterminal phrase} :
      Awaits enclosing outer depth threshold position → position.opened = bracket :: opened →
      Derives nonterminal phrase → threshold ≤ nonterminal.threshold →
      outer ++ phrase.tokens = front ++ [current] →
      Precedence.of lookahead ≤ .lowest → lookahead ≠ .rightParen →
      (bracket = .call → lookahead ≠ .comma) →
      Stops enclosing front current lookahead (.unexpected ")" lookahead.text)
  /-- A phrase that ends at the current token has been given up for the height of its tree. -/
  | tooTall {outer depth threshold position nonterminal phrase} :
      Awaits enclosing outer depth threshold position →
      Derives nonterminal phrase → threshold ≤ nonterminal.threshold →
      outer ++ phrase.tokens = front ++ [current] →
      Stops enclosing front current lookahead (.tooDeep maxNesting)

/-- Behind the outer tokens, reading from one parser fails at the other. -/
def FailsBehind (enclosing : Nat) (outer : List Token) (start after : Parser) (error : ParseError) :
    Prop :=
  ∃ front, start.tokens = front ++ after.tokens ∧
    Stops enclosing (outer ++ front) after.current after.lookahead error

theorem FailsBehind.within {enclosing : Nat} {outer opening : List Token}
    {start inner after : Parser} {error : ParseError}
    (fails : FailsBehind enclosing (outer ++ opening) inner after error)
    (spelled : start.tokens = opening ++ inner.tokens) :
    FailsBehind enclosing outer start after error := by
  rcases fails with ⟨front, whole, stops⟩
  exact ⟨opening ++ front, by rw [spelled, whole, List.append_assoc],
    by rw [← List.append_assoc]; exact stops⟩

/-- A rule for operands that, where its operand is due, fails only where reading cannot go on. -/
def Explains (enclosing levels : Nat) (operand : Precedence → ParserM Node) : Prop :=
  ∀ {outer : List Token} {depth : Nat} {threshold : Precedence} {position : Position}
    {parser after : Parser} {error : ParseError},
    Awaits enclosing outer depth threshold position → operand threshold parser = .error error after →
    parser.depth = depth → maxNesting ≤ depth + levels →
    (position.due = .argument → parser.current ≠ .rightParen) →
    FailsBehind enclosing outer parser after error

/-- A phrase that has been read ends at the current token. -/
theorem Spells.exists_front {start final : Parser} {phrase : Phrase}
    (spells : Spells start phrase final) :
    ∃ front, phrase.tokens = front ++ [final.current] ∧ start.tokens = front ++ final.tokens := by
  rcases spells.exists_rest with ⟨rest, spelled, ends⟩
  rcases phrase.exists_front with ⟨front, shape⟩
  refine ⟨front, ?_, ?_⟩
  · rw [Parser.current_eq ends, shape]
  · rw [spelled, shape, ends, List.append_assoc, List.singleton_append]

section Rules

variable {enclosing levels depth : Nat} {outer : List Token} {threshold : Precedence}
variable {position : Position} {operand : Precedence → ParserM Node} {start parser after : Parser}
variable {node : Node} {nonterminal : Nonterminal} {phrase : Phrase} {error : ParseError}

theorem Spells.tooTall (spells : Spells start phrase after)
    (awaits : Awaits enclosing outer depth threshold position)
    (derived : Derives nonterminal phrase) (reaches : threshold ≤ nonterminal.threshold) :
    FailsBehind enclosing outer start after (.tooDeep maxNesting) := by
  rcases spells.exists_front with ⟨front, shape, spelled⟩
  exact ⟨front, spelled, .tooTall awaits derived reaches (by rw [shape, List.append_assoc])⟩

theorem Spells.unclosed (spells : Spells start phrase after)
    (awaits : Awaits enclosing outer depth threshold position) {bracket : Bracket}
    {opened : List Bracket} (inside : position.opened = bracket :: opened)
    (derived : Derives nonterminal phrase) (reaches : threshold ≤ nonterminal.threshold)
    (loose : Precedence.of after.lookahead ≤ .lowest) (unended : after.lookahead ≠ .rightParen)
    (unlisted : bracket = .call → after.lookahead ≠ .comma) :
    FailsBehind enclosing outer start after (.unexpected ")" after.lookahead.text) := by
  rcases spells.exists_front with ⟨front, shape, spelled⟩
  exact ⟨front, spelled, .unclosed awaits inside derived reaches
    (by rw [shape, List.append_assoc]) loose unended unlisted⟩

variable (reads : ReadsPhrases operand) (consumes : ∀ threshold, ConsumesOnly (operand threshold))
variable (explains : Explains enclosing levels operand)
variable (awaits : Awaits enclosing outer depth threshold position)
variable (within : parser.depth = depth + 1) (enough : maxNesting ≤ depth + 1 + levels)

/-!
## How an expression begins
-/

theorem parsePrimary_run_refused (other : parser.current.beginsPhrase = false) :
    parsePrimary operand parser = .error parser.current.refusal parser := by
  rw [parsePrimary_run]
  generalize parser.current = token at other
  cases token <;> first | rfl | cases other

section Beginning

include reads explains awaits within enough

private theorem parseSigned_fails (sign : Sign) (current : parser.current = sign.token)
    (ran : parseSigned operand sign parser = .error error after) :
    FailsBehind enclosing outer parser after error := by
  rcases Parser.eq_cons_of_current current (by cases sign <;> simp [Sign.token]) with ⟨tail, shape⟩
  have opening : parser.tokens = [sign.token] ++ parser.advance.tokens := by
    simp [Parser.advance, shape]
  rw [parseSigned_run] at ran
  rcases bind_run_error_cases ran with failed | ⟨inner, middle, innerRan, built⟩
  · exact (explains awaits.signed failed within enough (by simp)).within opening
  · rcases branch_run_error_components built with ⟨same, stays⟩
    subst same stays
    rcases parseSigned_operand_hasRead reads current innerRan 0 with ⟨phrase, read⟩
    exact read.spells.tooTall awaits read.derived awaits.threshold_le_sign

private theorem parseGroup_fails (current : parser.current = .leftParen)
    (ran : parseGroup operand parser = .error error after) :
    FailsBehind enclosing outer parser after error := by
  rcases Parser.eq_cons_of_current current (by simp) with ⟨tail, shape⟩
  have opening : parser.tokens = [.leftParen] ++ parser.advance.tokens := by
    simp [Parser.advance, shape]
  rw [parseGroup_run] at ran
  rcases bind_run_error_cases ran with failed | ⟨inner, middle, innerRan, closed⟩
  · exact (explains awaits.group failed within enough (by simp)).within opening
  · rcases bind_run_error_cases closed with failed | ⟨_, final, _, built⟩
    · rcases expectClosing_run_error_components failed with ⟨unended, same, stays⟩
      subst same stays
      rcases reads (by decide) innerRan with ⟨nonterminal, phrase, read, reaches, loose⟩
      exact (read.spells.unclosed awaits.group rfl read.derived reaches loose unended
        (by simp)).within opening
    · cases built

private theorem parsePrimary_fails (begun : position.due = .argument → parser.current ≠ .rightParen)
    (ran : parsePrimary operand parser = .error error after) :
    FailsBehind enclosing outer parser after error := by
  cases current : parser.current with
  | number | identifier =>
      rw [parsePrimary_run, current] at ran
      cases ran
  | plus =>
      rw [parsePrimary_run, current] at ran
      exact parseSigned_fails reads explains awaits within enough .plus current ran
  | minus =>
      rw [parsePrimary_run, current] at ran
      exact parseSigned_fails reads explains awaits within enough .minus current ran
  | leftParen =>
      rw [parsePrimary_run, current] at ran
      exact parseGroup_fails reads explains awaits within enough current ran
  | _ =>
      have other : parser.current.beginsPhrase = false := by rw [current]; rfl
      rw [parsePrimary_run_refused other] at ran
      cases ran
      exact ⟨[], rfl, .noOperand (by simpa using awaits) begun other⟩

end Beginning

/-!
## How an expression goes on
-/

private theorem HasRead.exists_behind (read : HasRead start node nonterminal phrase parser)
    {token : Token} (next : parser.lookahead = token) (inside : token ≠ .endOfInput) :
    start.tokens = phrase.tokens ++ [token] ++ parser.advance.advance.tokens := by
  rcases read.spells.exists_rest with ⟨rest, spelled, ends⟩
  rcases Parser.eq_cons_of_lookahead ends next inside with ⟨tail, shape⟩
  simp [Parser.advance, spelled, ends, shape]

section Extending

include reads explains awaits within enough

private theorem parseBinary_fails (read : HasRead start node nonterminal phrase parser)
    {operator : Operator}
    (next : parser.lookahead = operator.token) (binds : threshold < Precedence.of operator.token)
    (ran : parseBinary operand node operator parser.advance = .error error after) :
    FailsBehind enclosing outer start after error := by
  have opening := read.exists_behind next (by cases operator <;> simp [Operator.token])
  rw [parseBinary_run] at ran
  rcases bind_run_error_cases ran with failed | ⟨right, middle, rightRan, built⟩
  · have waiting := awaits.right read.derived (next ▸ read.follows) binds
    exact (explains waiting failed within enough (by simp)).within opening
  · rcases branch_run_error_components built with ⟨same, stays⟩
    subst same stays
    rcases parseBinary_operand_hasRead reads read next rightRan 0 with ⟨extended, longer⟩
    exact longer.spells.tooTall awaits longer.derived (Operator.le_threshold_whole binds)

end Extending

/-- Behind the current token an argument is due, and no closing parenthesis in its place. In front of
it are the function and the arguments before. -/
structure Listing (start : Parser) (function : Phrase) (arguments : List Phrase) (parser : Parser) :
    Prop where
  nonempty : parser.tokens ≠ []
  spelled : start.tokens =
    function.tokens ++ .leftParen :: Phrase.listedTokens arguments ++ parser.advance.tokens
  derived : ∀ argument ∈ arguments, Derives .sum argument
  begun : arguments = [] → parser.lookahead ≠ .rightParen

private theorem Listing.next {function argument : Phrase} {arguments : List Phrase}
    (listing : Listing start function arguments parser)
    (read : HasRead parser.advance node nonterminal argument after)
    (comma : after.lookahead = .comma) :
    Listing start function (arguments ++ [argument]) after.advance := by
  rcases read.spells.exists_rest with ⟨rest, spelled, ends⟩
  rcases Parser.eq_cons_of_lookahead ends comma (by simp) with ⟨tail, shape⟩
  refine ⟨by simp [Parser.advance, ends, shape], ?_, ?_, by simp⟩
  · rw [listing.spelled, spelled]
    simp [shape, Parser.advance, ends, Phrase.listedTokens]
  · simpa [or_imp, forall_and] using ⟨listing.derived, read.derived.toSum⟩

section Arguments

variable {function : Phrase} {arguments : List Phrase} {bound : List Token}
variable {exprs others : List Expr} {tallest height : Nat}
variable (listing : Listing start function arguments parser)
include reads consumes listing

/-- The loop over arguments ends behind an argument, and in front of a token that is no comma. -/
theorem parseArgumentsWithin_ends (longEnough : parser.tokens.length ≤ bound.length)
    (ran : parseArgumentsWithin operand bound exprs tallest parser = .ok (others, height) after) :
    ∃ earlier last final, Listing start function earlier final ∧ Derives .sum last ∧
      Spells final.advance last after ∧ Precedence.of after.lookahead ≤ .lowest ∧
      after.lookahead ≠ .comma := by
  induction bound generalizing parser arguments exprs tallest with
  | nil =>
      exact absurd (List.length_eq_zero_iff.mp (Nat.le_zero.mp longEnough)) listing.nonempty
  | cons token bound ih =>
      rw [parseArgumentsWithin_run_cons] at ran
      rcases bind_run_ok_components ran with ⟨inner, middle, innerRan, further⟩
      rcases reads (by decide) innerRan with ⟨nonterminal, argument, read, -, loose⟩
      split at further
      next comma =>
        have leads := ((consumes .lowest).of_ok innerRan).trans (.advance middle)
        have shorter := Nat.sub_le_of_le_add longEnough
        refine ih (listing.next read comma) (Nat.le_trans leads.tokens.length_le ?_) further
        simpa [Parser.advance] using shorter
      next other =>
        cases further
        exact ⟨arguments, argument, parser, listing, read.derived.toSum, read.spells, loose, other⟩

include explains awaits within enough

private theorem parseArgumentsWithin_fails (derived : Derives .application function)
    (binds : threshold < .call)
    (ran : parseArgumentsWithin operand bound exprs tallest parser = .error error after) :
    FailsBehind enclosing outer start after error := by
  induction bound generalizing parser arguments exprs tallest with
  | nil => cases ran
  | cons token bound ih =>
      rw [parseArgumentsWithin_run_cons] at ran
      rcases bind_run_error_cases ran with failed | ⟨inner, middle, innerRan, further⟩
      · have waiting := awaits.argument derived listing.derived binds
        exact (explains waiting failed within enough fun first =>
          listing.begun (Position.eq_nil_of_due_listing first)).within listing.spelled
      · rcases reads (by decide) innerRan with ⟨nonterminal, argument, read, -, -⟩
        have leads := ((consumes .lowest).of_ok innerRan).trans (.advance middle)
        split at further
        next comma => exact ih (leads.depth.trans within) (listing.next read comma) further
        next => cases further

end Arguments

section Calls

include reads consumes explains awaits within enough

private theorem parseArguments_fails (read : HasRead start node nonterminal phrase parser)
    (next : parser.lookahead = .leftParen) (binds : threshold < .call)
    (ran : parseArguments operand parser.advance = .error error after) :
    FailsBehind enclosing outer start after error := by
  by_cases closing : parser.advance.lookahead = .rightParen
  · rw [parseArguments_run_empty closing] at ran
    cases ran
  have inside : parser.advance.depth = depth + 1 := within
  have derived := read.application next
  have listing : Listing start phrase [] parser.advance := by
    have current : parser.advance.current = .leftParen := next
    rcases Parser.eq_cons_of_current current (by simp) with ⟨tail, shape⟩
    have opening := read.exists_behind next (by simp)
    exact ⟨by simp [shape], by simpa [Phrase.listedTokens] using opening, by simp, fun _ => closing⟩
  rw [parseArguments_run closing] at ran
  rcases bind_run_error_cases ran with failed | ⟨result, middle, loop, closed⟩
  · exact parseArgumentsWithin_fails reads consumes explains awaits inside enough listing derived
      binds failed
  · rcases parseArgumentsWithin_ends reads consumes listing (Nat.le_refl _) loop with
      ⟨earlier, last, final, listed, lastDerived, spells, loose, unlisted⟩
    rcases bind_run_error_cases closed with failed | ⟨_, _, _, built⟩
    · rcases expectClosing_run_error_components failed with ⟨unended, same, stays⟩
      subst same stays
      have waiting := awaits.argument derived listed.derived binds
      exact (spells.unclosed waiting (Position.opened_listing _ _) lastDerived (Nat.le_refl _) loose
        unended (fun _ => unlisted)).within listed.spelled
    · cases built

private theorem parseCall_fails (read : HasRead start node nonterminal phrase parser)
    (next : parser.lookahead = .leftParen) (binds : threshold < .call)
    (ran : parseCall operand node parser.advance = .error error after) :
    FailsBehind enclosing outer start after error := by
  rw [parseCall_run] at ran
  rcases bind_run_error_cases ran with failed | ⟨⟨exprs, tallest⟩, middle, argumentsRan, built⟩
  · exact parseArguments_fails reads consumes explains awaits within enough read next binds failed
  · rcases branch_run_error_components built with ⟨same, stays⟩
    subst same stays
    rcases parseCall_arguments_hasRead reads read next argumentsRan 0 with ⟨extended, longer⟩
    exact longer.spells.tooTall awaits longer.derived (Nat.le_of_lt_succ binds)

private theorem parseExtension_fails (read : HasRead start node nonterminal phrase parser)
    (continues : threshold < Precedence.of parser.lookahead)
    (ran : parseExtension operand node parser.advance = .error error after) :
    FailsBehind enclosing outer start after error := by
  rcases Token.binds_cases continues with next | ⟨operator, next⟩
  · have current : parser.advance.current = .leftParen := next
    rw [parseExtension_run_call current] at ran
    rw [next] at continues
    exact parseCall_fails reads consumes explains awaits within enough read next continues ran
  · have current : parser.advance.current = operator.token := next
    rw [parseExtension_run_binary current] at ran
    rw [next] at continues
    exact parseBinary_fails reads explains awaits within enough read next continues ran

private theorem climbWithin_fails {bound : List Token}
    (read : HasRead start node nonterminal phrase parser)
    (ran : climbWithin operand threshold bound node parser = .error error after) :
    FailsBehind enclosing outer start after error := by
  induction bound generalizing node parser nonterminal phrase with
  | nil => cases ran
  | cons token bound ih =>
      rw [climbWithin_run_cons] at ran
      split at ran
      next continues =>
        rcases bind_run_error_cases ran with failed | ⟨extended, middle, extension, further⟩
        · exact parseExtension_fails reads consumes explains awaits within enough read continues
            failed
        · have leads := (parseExtension_consumesOnly consumes node).of_ok extension
          rcases parseExtension_hasRead reads read continues extension with
            ⟨whole, longer, wholeRead, -⟩
          exact ih (leads.depth.trans within) wholeRead further
      next => cases ran

private theorem parseClimbing_fails
    (begun : position.due = .argument → parser.current ≠ .rightParen)
    (ran : parseClimbing operand threshold parser = .error error after) :
    FailsBehind enclosing outer parser after error := by
  rw [parseClimbing_run] at ran
  rcases bind_run_error_cases ran with failed | ⟨left, middle, primary, climbed⟩
  · exact parsePrimary_fails reads explains awaits within enough begun failed
  · rcases parsePrimary_hasRead reads primary with ⟨nonterminal, phrase, read, -⟩
    have leads : parser.LeadsTo middle :=
      (consumesOnly_relation.onTokens.onWindows.parsePrimary operand operand consumes).of_ok primary
    rw [climb_run] at climbed
    exact climbWithin_fails reads consumes explains awaits (leads.depth.trans within) enough read
      climbed

end Calls

end Rules

private theorem parseWithin_explains (enclosing levels : Nat) :
    Explains enclosing levels (parseWithin levels) := by
  induction levels with
  | zero =>
      intro outer depth threshold position parser after error awaits ran within enough begun
      cases ran
      exact ⟨[], rfl, .refused (by simpa using awaits) enough⟩
  | succ levels ih =>
      intro outer depth threshold position parser after error awaits ran within enough begun
      rcases nested_run_error_cases ran with ⟨deep, same, stays⟩ | ⟨inner, climbed, stays⟩
      · subst same stays
        exact ⟨[], rfl, .refused (by simpa using awaits) (within ▸ deep)⟩
      · subst stays
        have inside : parser.descend.depth = depth + 1 := congrArg (· + 1) within
        show FailsBehind enclosing outer parser.descend inner error
        exact parseClimbing_fails (parseWithin_readsPhrases levels) (parseWithin_consumesOnly levels)
          ih awaits inside (by omega) begun climbed

theorem parseExpression_fails {parser after : Parser} {error : ParseError}
    (failed : parseExpression .lowest parser = .error error after) :
    FailsBehind parser.depth [] parser after error := by
  rw [parseExpression_run] at failed
  rcases bind_run_error_cases failed with ran | ⟨_, _, _, built⟩
  · exact parseWithin_explains parser.depth maxNesting .start ran rfl (Nat.le_add_left _ _)
      (by simp [Position.start])
  · cases built

/-!
## The earliest token
-/

/-- An error at the first token that cannot be read on from. What stands in front of it begins an
expression, and with it does not; where a closing parenthesis is missing that token is the lookahead.
An expression that goes over the limit is only known to have begun. -/
inductive Earliest (front : List Token) (current lookahead : Token) : ParseError → Prop where
  | refused : IsBeginning front → ¬ IsBeginning (front ++ [current]) →
      Earliest front current lookahead current.refusal
  | unexpected : IsBeginning (front ++ [current]) → ¬ IsBeginning (front ++ [current, lookahead]) →
      Earliest front current lookahead (.unexpected ")" lookahead.text)
  | tooDeep : IsBeginning front → Earliest front current lookahead (.tooDeep maxNesting)

theorem Stops.earliest {enclosing : Nat} {front : List Token} {current lookahead : Token}
    {error : ParseError} (stops : Stops enclosing front current lookahead error) :
    Earliest front current lookahead error := by
  cases stops with
  | refused awaits deep => exact .tooDeep awaits.isBeginning
  | noOperand awaits begun other =>
      have stuck := Position.step_eq_none awaits.due begun other
      exact .refused awaits.isBeginning (IsBeginning.not_of_step_eq_none awaits.scan stuck)
  | @unclosed outer _ _ position _ opened _ phrase awaits inside derived reaches ends loose unended
      unlisted =>
      have scanned : Position.start.scan (front ++ [current]) = some ⟨.operator, position.opened⟩ := by
        simp [← ends, awaits.scan, Position.scan_phrase awaits.due]
      have stuck : Position.step ⟨.operator, position.opened⟩ lookahead = none := by
        rw [inside]
        exact Position.goOn_eq_none loose unended unlisted
      have further := IsBeginning.not_of_step_eq_none scanned stuck
      exact .unexpected (ends ▸ awaits.isBeginning_operand derived reaches) (by simpa using further)
  | tooTall awaits derived reaches ends =>
      have begins := awaits.isBeginning_operand derived reaches
      rw [ends] at begins
      exact .tooDeep begins.of_append

/-- A statement that cannot be read fails at the earliest token at which that can be told. -/
theorem statement_fails_earliest {parser final : Parser} (failed : parser.statement = (none, final)) :
    ∃ error after front, parseExpression .lowest parser = .error error after ∧
      final = (after.record error).advance ∧ parser.tokens = front ++ after.tokens ∧
      Earliest front after.current after.lookahead error := by
  rw [Parser.statement] at failed
  cases ran : parseExpression .lowest parser with
  | ok expr after => simp [ran] at failed
  | error error after =>
      rcases parseExpression_fails ran with ⟨front, spelled, stops⟩
      have ended : (after.record error).advance = final := by simpa [ran] using failed
      exact ⟨error, after, front, rfl, ended.symm, spelled, stops.earliest⟩

theorem statement_fails_earliest_at_comma :
    Parser.statement
        { tokens := [.identifier "f", .leftParen, .leftParen, .identifier "a", .comma] } =
        (none, { tokens := [.comma], errors := #[.unexpected ")" ","] }) ∧
      Earliest [.identifier "f", .leftParen, .leftParen] (.identifier "a") .comma
        (.unexpected ")" ",") := by
  have failed : Parser.statement
      { tokens := [.identifier "f", .leftParen, .leftParen, .identifier "a", .comma] } =
      (none, { tokens := [.comma], errors := #[.unexpected ")" ","] }) := rfl
  rcases statement_fails_earliest failed with ⟨error, after, front, ran, -, spelled, earliest⟩
  have stood : parseExpression .lowest
      { tokens := [.identifier "f", .leftParen, .leftParen, .identifier "a", .comma] } =
      .error (.unexpected ")" ",") { tokens := [.identifier "a", .comma] } := rfl
  cases stood.symm.trans ran
  have split : [.identifier "f", .leftParen, .leftParen] ++ [.identifier "a", .comma] =
      front ++ [.identifier "a", .comma] := spelled
  have whole := List.append_cancel_right split
  exact ⟨failed, whole ▸ earliest⟩

end Calculator
