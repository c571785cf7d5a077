import Calculator.Proofs.Parser.Nesting
import Calculator.Proofs.Token.Munch

/-!
# A parser in use

One parser can be asked for an expression, for the program of all that is left, and for its
diagnostics, in any order and any number of times. Whatever it has been asked before, also where it
failed half way, it stands at a token of its text and goes on from there as a new parser would.
-/

set_option autoImplicit false

namespace Calculator

/-!
## Diagnostics are kept and not looked at
-/

/-- The parser with diagnostics that have been recorded before its own. -/
def Parser.recalling (errors : Array ParseError) (parser : Parser) : Parser :=
  { parser with errors := errors ++ parser.errors }

private theorem Parser.recalling_eq {parser : Parser} (resting : parser.depth = 0) :
    Parser.recalling parser.errors { tokens := parser.tokens } = parser := by
  obtain ⟨tokens, depth, errors⟩ := parser
  cases resting
  simp [recalling]

def Parser.mapResult {α : Type} (change : Parser → Parser) :
    EStateM.Result ParseError Parser α → EStateM.Result ParseError Parser α
  | .ok value after => .ok value (change after)
  | .error error after => .error error (change after)

/-- A step that keeps earlier diagnostics and comes to the same without them. -/
def IgnoresErrors {α : Type} (step : ParserM α) : Prop :=
  ∀ errors parser, step (Parser.recalling errors parser) =
    Parser.mapResult (Parser.recalling errors) (step parser)

namespace IgnoresErrors

variable {α β : Type}

theorem value (value : α) : IgnoresErrors (pure value) := fun _ _ => rfl

private theorem look {next : Parser → ParserM α}
    (blind : ∀ parser, next parser = next { tokens := parser.tokens })
    (further : ∀ parser, IgnoresErrors (next parser)) : IgnoresErrors (get >>= next) := by
  intro errors parser
  have same : next (Parser.recalling errors parser) = next parser :=
    (blind _).trans (blind parser).symm
  rw [get_bind_run, get_bind_run, same]
  exact further parser errors parser

theorem sequence {step : ParserM α} {next : α → ParserM β} (first : IgnoresErrors step)
    (second : ∀ value, IgnoresErrors (next value)) : IgnoresErrors (step >>= next) := by
  intro errors parser
  have same := first errors parser
  cases ran : step parser with
  | ok value after =>
      rw [ran] at same
      rw [bind_run_ok same, bind_run_ok ran, second value errors after]
  | error error after =>
      rw [ran] at same
      rw [bind_run_error same, bind_run_error ran]
      rfl

private theorem inside {step : ParserM α} (ignores : IgnoresErrors step) :
    IgnoresErrors (nested step) := by
  intro errors parser
  by_cases shallow : parser.depth < maxNesting
  · have same := ignores errors parser.descend
    have alike : (Parser.recalling errors parser).depth < maxNesting := shallow
    cases ran : step parser.descend with
    | ok value after =>
        rw [ran] at same
        rw [nested_run_ok alike same, nested_run_ok shallow ran]
        rfl
    | error error after =>
        rw [ran] at same
        rw [nested_run_error alike same, nested_run_error shallow ran]
        rfl
  · have alike : ¬ (Parser.recalling errors parser).depth < maxNesting := shallow
    rw [nested_run_refused alike, nested_run_refused shallow]
    rfl

private theorem relation :
    TokenRelation (m := ParserM) (n := ParserM) fun step _ => IgnoresErrors step where
  value := value
  node _ _ _ := rfl
  failure _ _ _ := rfl
  look blind _ := look blind
  advance _ _ := rfl
  sequence := sequence
  inside := inside

end IgnoresErrors

theorem parseExpression_ignoresErrors (threshold : Precedence) :
    IgnoresErrors (parseExpression threshold) :=
  (IgnoresErrors.relation.parseNode maxNesting threshold).sequence fun _ => .value _

private theorem statement_recalling (errors : Array ParseError) (parser : Parser) :
    (Parser.recalling errors parser).statement =
      (parser.statement.1, Parser.recalling errors parser.statement.2) := by
  rw [Parser.statement, parseExpression_ignoresErrors, Parser.statement]
  cases parseExpression .lowest parser with
  | ok expr after => rfl
  | error error after =>
      simp [Parser.mapResult, Parser.recalling, Parser.record, Parser.advance]

private theorem programWithin_recalling (errors : Array ParseError) (bound : List Token)
    (read : List Expr) (parser : Parser) :
    Parser.programWithin bound read (Parser.recalling errors parser) =
      ((Parser.programWithin bound read parser).1,
        Parser.recalling errors (Parser.programWithin bound read parser).2) := by
  induction bound generalizing read parser with
  | nil => rfl
  | cons token bound ih =>
      by_cases ended : parser.current = .endOfInput
      · have alike : (Parser.recalling errors parser).current = .endOfInput := ended
        simp only [Parser.programWithin, ended, alike]
      · have alike : (Parser.recalling errors parser).current ≠ .endOfInput := ended
        rw [programWithin_run_cons alike, programWithin_run_cons ended, statement_recalling]
        obtain ⟨statement?, after⟩ := parser.statement
        cases statement? with
        | some expr => exact ih (expr :: read) after
        | none => exact ih read after

/-- What has been recorded before stands in front of what reading a text records, and that is all
that it does. -/
theorem program_recalling (errors : Array ParseError) (parser : Parser) :
    (Parser.recalling errors parser).program =
      (parser.program.1, Parser.recalling errors parser.program.2) :=
  programWithin_recalling errors parser.tokens [] parser

/-!
## The end of input
-/

section End

variable {parser : Parser} (ended : parser.tokens = [])
include ended

theorem program_run_end : parser.program = ({ statements := [] }, parser) :=
  programWithin_run_end ended

private theorem parseExpression_run_end (resting : parser.depth = 0) (threshold : Precedence) :
    parseExpression threshold parser = .error (.noExpression "EOF") parser := by
  have current : parser.descend.current = .endOfInput := by
    simp [Parser.current, Parser.descend, ended]
  have refused (operand : Precedence → ParserM Node) :
      parseClimbing operand threshold parser.descend =
        .error (.noExpression "EOF") parser.descend := by
    rw [parseClimbing_run]
    exact bind_run_error (by rw [parsePrimary_run, current]; rfl)
  have shallow : parser.depth < maxNesting := by
    rw [resting]
    decide
  rw [parseExpression_run]
  exact bind_run_error (nested_run_error shallow (refused _))

end End

/-!
## Questions
-/

namespace Parser

/-- What a parser can be asked for: an expression, the program of all that is left, and the
diagnostics recorded so far. -/
inductive Question where
  | expression (threshold : Precedence)
  | program
  | errors

inductive Answer where
  | expression (outcome : Except ParseError Expr)
  | program (program : Program)
  | errors (errors : List ParseError)

/-- The answer to a question, and the parser that answers the next one. -/
def ask (parser : Parser) : Question → Answer × Parser
  | .expression threshold =>
      match parseExpression threshold parser with
      | .ok expr after => (.expression (.ok expr), after)
      | .error error after => (.expression (.error error), after)
  | .program => (.program parser.program.1, parser.program.2)
  | .errors => (.errors parser.errors.toList, parser)

def afterQuestions (parser : Parser) (questions : List Question) : Parser :=
  questions.foldl (fun parser question => (parser.ask question).2) parser

/-- How many tokens of a text stand in front of the current one. Behind the last token that is all
of them. -/
def position (source : String) (parser : Parser) : Nat :=
  (tokenize source).length - parser.tokens.length

/-- A parser between two questions about a text. -/
structure Resting (source : String) (parser : Parser) : Prop where
  depth : parser.depth = 0
  tokens : parser.tokens <:+ tokenize source

section Asking

variable {source : String} {parser : Parser}

theorem ask_expression_leadsTo (parser : Parser) (threshold : Precedence) :
    parser.LeadsTo (parser.ask (.expression threshold)).2 := by
  have leads := parseExpression_consumesOnly threshold parser
  rw [after] at leads
  rw [ask]
  cases ran : parseExpression threshold parser with
  | ok expr after | error error after =>
      rw [ran] at leads
      exact leads

/-- Reading a program comes to what it comes to in a new parser at the same token. -/
theorem ask_program_eq (depth : parser.depth = 0) :
    parser.ask .program =
      (.program (Parser.program { tokens := parser.tokens }).1,
        recalling parser.errors (Parser.program { tokens := parser.tokens }).2) := by
  have whole := program_recalling parser.errors { tokens := parser.tokens }
  rw [recalling_eq depth] at whole
  simp only [ask, whole]

theorem Resting.inside (resting : Resting source parser) : .endOfInput ∉ parser.tokens :=
  fun member => endOfInput_not_mem_tokenize source (resting.tokens.mem member)

private theorem Resting.tokens_eq_drop (resting : Resting source parser) :
    parser.tokens = (tokenize source).drop (parser.position source) :=
  List.suffix_iff_eq_drop.mp resting.tokens

theorem Resting.ask_program (resting : Resting source parser) :
    (parser.ask .program).2.tokens = [] ∧ (parser.ask .program).2.depth = 0 := by
  rcases program_readsInTurns resting.inside with ⟨turns, reads⟩
  exact ⟨reads.tokens, reads.depth.trans resting.depth⟩

theorem Resting.ask_tokens (resting : Resting source parser) (question : Question) :
    (parser.ask question).2.tokens <:+ parser.tokens := by
  cases question with
  | expression threshold => exact (ask_expression_leadsTo parser threshold).tokens
  | program =>
      rw [resting.ask_program.1]
      exact List.nil_suffix
  | errors => exact List.suffix_rfl

private theorem Resting.ask_errors (resting : Resting source parser) (question : Question) :
    parser.errors.toList <+: (parser.ask question).2.errors.toList := by
  cases question with
  | expression threshold =>
      rw [(ask_expression_leadsTo parser threshold).errors]
  | program =>
      rw [ask_program_eq resting.depth]
      exact ⟨_, Array.toList_append.symm⟩
  | errors => exact List.prefix_rfl

private theorem Resting.after_ask (resting : Resting source parser) (question : Question) :
    Resting source (parser.ask question).2 := by
  refine ⟨?_, (resting.ask_tokens question).trans resting.tokens⟩
  cases question with
  | expression threshold =>
      exact (ask_expression_leadsTo parser threshold).depth.trans resting.depth
  | program => exact resting.ask_program.2
  | errors => exact resting.depth

theorem Resting.afterQuestions (resting : Resting source parser) (questions : List Question) :
    Resting source (parser.afterQuestions questions) := by
  induction questions generalizing parser with
  | nil => exact resting
  | cons question questions ih => exact ih (resting.after_ask question)

theorem Resting.ofSource (source : String) : Resting source (ofSource source) :=
  ⟨rfl, List.suffix_rfl⟩

end Asking

/-!
## What every parser in use keeps to
-/

/-- What holds of a parser between two questions about a text. It stands at a token of the text, and
no question moves it back. Its diagnostics stay as they are, and only reading a program adds to
them: what is then read and recorded is what a new parser at the same token reads and records. -/
structure Consistent (source : String) (parser : Parser) : Prop where
  current : parser.current = Token.nth source.toList (parser.position source)
  lookahead : parser.lookahead = Token.nth source.toList (parser.position source + 1)
  moves : ∀ question, parser.position source ≤ (parser.ask question).2.position source
  grows : ∀ question, parser.errors.toList <+: (parser.ask question).2.errors.toList
  expression : ∀ threshold, (parser.ask (.expression threshold)).2.errors = parser.errors
  errors : parser.ask .errors = (.errors parser.errors.toList, parser)
  program : ∃ program final,
    ({ tokens := (tokenize source).drop (parser.position source) } : Parser).program =
      (program, final) ∧
    parser.ask .program = (.program program, recalling parser.errors final)

/-- A parser at the end of input. No question changes it, and there is nothing left to read. -/
structure Exhausted (parser : Parser) : Prop where
  program : parser.ask .program = (.program { statements := [] }, parser)
  expression : ∀ threshold,
    parser.ask (.expression threshold) = (.expression (.error (.noExpression "EOF")), parser)
  errors : parser.ask .errors = (.errors parser.errors.toList, parser)

section Consistency

variable {source : String} {parser : Parser}

theorem Resting.consistent (resting : Resting source parser) : Consistent source parser where
  current := by
    rw [nth_eq_getD, current, resting.tokens_eq_drop]
    simp [List.headD_eq_head?_getD]
  lookahead := by
    rw [nth_eq_getD, lookahead, resting.tokens_eq_drop]
    simp [List.headD_eq_head?_getD]
  moves question := Nat.sub_le_sub_left (resting.ask_tokens question).length_le _
  grows := resting.ask_errors
  expression threshold := (ask_expression_leadsTo parser threshold).errors
  errors := rfl
  program := by
    rw [← resting.tokens_eq_drop]
    exact ⟨_, _, rfl, ask_program_eq resting.depth⟩

private theorem exhausted_of_ended (ended : parser.tokens = []) (depth : parser.depth = 0) :
    Exhausted parser where
  program := by simp only [ask, program_run_end ended]
  expression threshold := by simp only [ask, parseExpression_run_end ended depth threshold]
  errors := rfl

theorem Exhausted.afterQuestions (exhausted : Exhausted parser) (questions : List Question) :
    parser.afterQuestions questions = parser := by
  induction questions with
  | nil => rfl
  | cons question questions ih =>
      have kept : (parser.ask question).2 = parser := by
        cases question with
        | expression threshold => rw [exhausted.expression threshold]
        | program => rw [exhausted.program]
        | errors => rw [exhausted.errors]
      rw [Parser.afterQuestions, List.foldl_cons, kept]
      exact ih

end Consistency

end Parser

/-- Whatever a parser of a text has been asked before, it stays consistent. Once it has been asked
for the program, it is at the end of input and stays there, whatever it is asked later. -/
theorem parser_stays_consistent (source : String) (asked : List Parser.Question) :
    ((Parser.ofSource source).afterQuestions asked).Consistent source ∧
      ∀ later, ((Parser.ofSource source).afterQuestions (asked ++ .program :: later)).Exhausted ∧
        (Parser.ofSource source).afterQuestions (asked ++ .program :: later) =
          (Parser.ofSource source).afterQuestions (asked ++ [.program]) := by
  have resting := (Parser.Resting.ofSource source).afterQuestions asked
  refine ⟨resting.consistent, fun later => ?_⟩
  have split (questions : List Parser.Question) :
      (Parser.ofSource source).afterQuestions (asked ++ .program :: questions) =
        (((Parser.ofSource source).afterQuestions asked).ask .program).2.afterQuestions questions :=
    List.foldl_append
  rcases resting.ask_program with ⟨ended, depth⟩
  have exhausted := Parser.exhausted_of_ended ended depth
  rw [split later, split [], exhausted.afterQuestions, exhausted.afterQuestions]
  exact ⟨exhausted, rfl⟩

end Calculator
