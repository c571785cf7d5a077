import Calculator.Proofs.Parser.Level
import Calculator.Proofs.Token.Stream
import Calculator.Source

/-!
# Reading a whole text

A text is read in turns. Each turn uses up tokens, at least one, and comes to one expression or to
one diagnostic; whatever goes wrong in a turn, the next one begins behind it. A turn that comes to
an expression has used up the tokens of a phrase, so it would come to the same on its own.
-/

set_option autoImplicit false

namespace Calculator

/-!
## One expression
-/

theorem Phrase.FitsWithin.mono {phrase : Phrase} {outer inner : Nat}
    (fits : phrase.FitsWithin inner) (fewer : outer ≤ inner) : phrase.FitsWithin outer :=
  ⟨Nat.le_trans (Nat.add_le_add_right fewer _) fits.1, fits.2⟩

theorem parseExpression_consumesOnly (threshold : Precedence) :
    ConsumesOnly (parseExpression threshold) :=
  (parseWithin_consumesOnly maxNesting threshold).bind fun _ => .refl

theorem parseExpression_yields {phrase : Phrase} {parser : Parser} {rest : List Token}
    (derived : Derives .sum phrase) (spelled : parser.tokens = phrase.tokens ++ rest)
    (ends : Precedence.of (rest.headD .endOfInput) ≤ .lowest) :
    Yields (phrase.FitsWithin parser.depth) (parseExpression .lowest parser)
      (.ok phrase.tree { parser with tokens := phrase.last :: rest }) := by
  have reads : Precedence.lowest.Reads phrase := derived
  exact reads.parseExpression_yields spelled (.of_le (by decide) ends)

/-- Reading succeeds exactly on the sums that fit, in front of a token that does not continue
them. -/
theorem parseExpression_eq_ok_iff {parser after : Parser} {expr : Expr} :
    parseExpression .lowest parser = .ok expr after ↔
      ∃ phrase rest, Derives .sum phrase ∧ parser.tokens = phrase.tokens ++ rest ∧
        Precedence.of (rest.headD .endOfInput) ≤ .lowest ∧ phrase.FitsWithin parser.depth ∧
        expr = phrase.tree ∧ after = { parser with tokens := phrase.last :: rest } := by
  constructor
  · intro ran
    obtain ⟨phrase, rest, derived, spelled, ends, remaining⟩ :=
      parseExpression_eq_ok_iff_reads.mp ran
    exact ⟨phrase, rest, derived, spelled, ends.loose, remaining⟩
  · intro begins
    obtain ⟨phrase, rest, derived, spelled, ends, remaining⟩ := begins
    exact parseExpression_eq_ok_iff_reads.mpr
      ⟨phrase, rest, derived, spelled, .of_le (by decide) ends, remaining⟩

/-!
## Turns
-/

/-- The tokens that one turn uses up, and what it comes to. -/
structure Turn where
  segment : List Token
  outcome : Except ParseError Expr

namespace Turn

def statement? (turn : Turn) : Option Expr :=
  match turn.outcome with
  | .ok expr => some expr
  | .error _ => none

def error? (turn : Turn) : Option ParseError :=
  match turn.outcome with
  | .ok _ => none
  | .error error => some error

variable {segment : List Token}

@[simp] theorem statement?_ok (expr : Expr) :
    statement? { segment, outcome := .ok expr } = some expr := rfl

@[simp] theorem statement?_error (error : ParseError) :
    statement? { segment, outcome := .error error } = none := rfl

@[simp] theorem error?_ok (expr : Expr) :
    error? { segment, outcome := .ok expr } = none := rfl

@[simp] theorem error?_error (error : ParseError) :
    error? { segment, outcome := .error error } = some error := rfl

end Turn

/-- Turns that follow one another until the current token is the end of input. A failure is
recorded, and either way the next turn begins behind the token at which the last one stopped. -/
inductive Turns : Parser → List Turn → Parser → Prop where
  | done {parser} : parser.current = .endOfInput → Turns parser [] parser
  | statement {parser after final segment expr turns} :
      parser.current ≠ .endOfInput →
      parseExpression .lowest parser = .ok expr after →
      parser.tokens = segment ++ after.advance.tokens →
      Turns after.advance turns final →
      Turns parser (⟨segment, .ok expr⟩ :: turns) final
  | failure {parser after final segment error turns} :
      parser.current ≠ .endOfInput →
      parseExpression .lowest parser = .error error after →
      parser.tokens = segment ++ after.advance.tokens →
      Turns (after.record error).advance turns final →
      Turns parser (⟨segment, .error error⟩ :: turns) final

/-- Moving behind the token at which a step stopped uses up at least one token. -/
theorem exists_segment_of_leadsTo {parser after : Parser} (leads : parser.LeadsTo after)
    (nonempty : parser.tokens ≠ []) :
    ∃ segment, segment ≠ [] ∧ parser.tokens = segment ++ after.advance.tokens := by
  obtain ⟨front, whole⟩ := leads.tokens
  cases shape : after.tokens with
  | nil => exact ⟨parser.tokens, nonempty, by simp [Parser.advance, shape]⟩
  | cons token rest =>
      refine ⟨front ++ [token], by simp, ?_⟩
      simp [Parser.advance, shape, ← whole]

private theorem Parser.current_ne_endOfInput {parser : Parser} (nonempty : parser.tokens ≠ [])
    (inside : .endOfInput ∉ parser.tokens) : parser.current ≠ .endOfInput := by
  obtain ⟨token, rest, shape⟩ := List.exists_cons_of_ne_nil nonempty
  rw [Parser.current_eq shape]
  intro same
  exact inside (shape ▸ same ▸ List.mem_cons_self)

theorem programWithin_run_cons {token : Token} {bound : List Token} {read : List Expr}
    {parser : Parser} (inside : parser.current ≠ .endOfInput) :
    Parser.programWithin (token :: bound) read parser =
      match parser.statement with
      | (some expr, after) => Parser.programWithin bound (expr :: read) after
      | (none, after) => Parser.programWithin bound read after := by
  rw [Parser.programWithin]
  generalize parser.current = token at inside
  cases token <;> first | rfl | exact absurd rfl inside

/-- What reading a text does, turn by turn. -/
structure ReadsInTurns (start : Parser) (read : List Expr) (program : Program) (final : Parser)
    (turns : List Turn) : Prop where
  run : Turns start turns final
  segments : turns.flatMap Turn.segment = start.tokens
  nonempty : ∀ turn ∈ turns, turn.segment ≠ []
  statements : program.statements = read.reverse ++ turns.filterMap Turn.statement?
  errors : final.errors.toList = start.errors.toList ++ turns.filterMap Turn.error?
  tokens : final.tokens = []
  depth : final.depth = start.depth

private theorem programWithin_readsInTurns (bound : List Token) (read : List Expr) (parser : Parser)
    (inside : .endOfInput ∉ parser.tokens) (longEnough : parser.tokens.length ≤ bound.length) :
    ∃ turns, ReadsInTurns parser read (Parser.programWithin bound read parser).1
      (Parser.programWithin bound read parser).2 turns := by
  induction bound generalizing read parser with
  | nil =>
      have ended : parser.tokens = [] := List.length_eq_zero_iff.mp (Nat.le_zero.mp longEnough)
      exact ⟨[], .done (by simp [Parser.current, ended]), by simp [ended], by simp,
        by simp [Parser.programWithin], by simp [Parser.programWithin], ended, rfl⟩
  | cons token bound ih =>
      rcases Classical.em (parser.tokens = []) with empty | nonempty
      · have stopped : Parser.programWithin (token :: bound) read parser =
            ({ statements := read.reverse }, parser) := by
          simp [Parser.programWithin, Parser.current, empty]
        rw [stopped]
        exact ⟨[], .done (by simp [Parser.current, empty]), by simp [empty], by simp, by simp,
          by simp, empty, rfl⟩
      have current := Parser.current_ne_endOfInput nonempty inside
      rw [programWithin_run_cons current, Parser.statement]
      cases ran : parseExpression .lowest parser with
      | ok expr after =>
          have leads := (parseExpression_consumesOnly .lowest).of_ok ran
          obtain ⟨segment, used, spelled⟩ := exists_segment_of_leadsTo leads nonempty
          obtain ⟨turns, further⟩ := ih (expr :: read) after.advance
            (fun member => inside (spelled ▸ List.mem_append_right _ member)) (by
              have positive := List.length_pos_iff.mpr used
              simp only [spelled, List.length_append, List.length_cons] at longEnough
              omega)
          refine ⟨⟨segment, .ok expr⟩ :: turns, .statement current ran spelled further.run,
            ?_, ?_, ?_, ?_, further.tokens, ?_⟩
          · simp [further.segments, spelled]
          · simpa using ⟨used, further.nonempty⟩
          · simp [further.statements]
          · simpa [List.filterMap_cons, Parser.advance, leads.errors] using further.errors
          · exact further.depth.trans leads.depth
      | error error after =>
          have leads := (parseExpression_consumesOnly .lowest).of_error ran
          obtain ⟨segment, used, spelled⟩ := exists_segment_of_leadsTo leads nonempty
          obtain ⟨turns, further⟩ := ih read (after.record error).advance
            (fun member => inside (spelled ▸ List.mem_append_right _ member)) (by
              have positive := List.length_pos_iff.mpr used
              have same : (after.record error).advance.tokens = after.advance.tokens := rfl
              simp only [spelled, List.length_append, List.length_cons] at longEnough
              rw [same]
              omega)
          refine ⟨⟨segment, .error error⟩ :: turns, .failure current ran spelled further.run,
            ?_, ?_, ?_, ?_, further.tokens, ?_⟩
          · simp [further.segments, spelled, Parser.advance, Parser.record]
          · simpa using ⟨used, further.nonempty⟩
          · simp [further.statements, List.filterMap_cons]
          · simpa [List.filterMap_cons, Parser.advance, Parser.record, leads.errors] using
              further.errors
          · exact further.depth.trans leads.depth

/-- Reading ends, and its turns account for every token, every expression and every diagnostic. -/
theorem program_readsInTurns {parser : Parser} (inside : .endOfInput ∉ parser.tokens) :
    ∃ turns, ReadsInTurns parser [] parser.program.1 parser.program.2 turns :=
  programWithin_readsInTurns parser.tokens [] parser inside (Nat.le_refl _)

/-!
## A turn on its own
-/

theorem programWithin_run_end {bound : List Token} {read : List Expr} {parser : Parser}
    (ended : parser.tokens = []) :
    Parser.programWithin bound read parser = ({ statements := read.reverse }, parser) := by
  cases bound with
  | nil => rfl
  | cons token bound => simp [Parser.programWithin, Parser.current, ended]

private theorem program_run_phrase {phrase : Phrase} (derived : Derives .sum phrase)
    (fits : phrase.FitsWithin 0) :
    ({ tokens := phrase.tokens } : Parser).program =
      ({ statements := [phrase.tree] }, { tokens := [] }) := by
  obtain ⟨token, rest, spelled, begins⟩ := phrase.tokens_eq_cons
  have current : Parser.current { tokens := token :: rest } ≠ .endOfInput := by
    rintro same
    cases (same : token = .endOfInput)
    cases begins
  have ran : parseExpression .lowest { tokens := token :: rest } =
      .ok phrase.tree { tokens := [phrase.last] } :=
    parseExpression_eq_ok_iff.mpr
      ⟨phrase, [], derived, by simp [spelled], Nat.le_refl _, fits, rfl, rfl⟩
  rw [spelled, Parser.program, programWithin_run_cons current, Parser.statement, ran]
  exact programWithin_run_end rfl

theorem Turns.statement_alone {parser final : Parser} {turns : List Turn}
    (run : Turns parser turns final) {turn : Turn} (member : turn ∈ turns) {expr : Expr}
    (read : turn.outcome = .ok expr) :
    ({ tokens := turn.segment } : Parser).program =
      ({ statements := [expr] }, { tokens := [] }) := by
  induction run with
  | done => cases member
  | statement current ran spelled rest ih =>
      cases member with
      | tail _ member => exact ih member
      | head =>
          obtain ⟨phrase, behind, derived, whole, -, fits, rfl, rfl⟩ :=
            parseExpression_eq_ok_iff.mp ran
          cases read
          have same : _ = phrase.tokens :=
            List.append_cancel_right (spelled.symm.trans whole)
          dsimp only
          rw [same]
          exact program_run_phrase derived (fits.mono (Nat.zero_le _))
  | failure current ran spelled rest ih =>
      cases member with
      | tail _ member => exact ih member
      | head => cases read

/-!
## Turns and tokens
-/

private theorem Turn.length_statements_add_errors (turns : List Turn) :
    (turns.filterMap Turn.statement?).length + (turns.filterMap Turn.error?).length =
      turns.length := by
  induction turns with
  | nil => rfl
  | cons turn turns ih =>
      obtain ⟨segment, outcome⟩ := turn
      cases outcome with
      | ok expr => simp [List.filterMap_cons, ← ih]; omega
      | error error => simp [List.filterMap_cons, ← ih]; omega

private theorem Turn.length_le_length_segments {turns : List Turn}
    (nonempty : ∀ turn ∈ turns, turn.segment ≠ []) :
    turns.length ≤ (turns.flatMap Turn.segment).length := by
  induction turns with
  | nil => exact Nat.le_refl _
  | cons turn turns ih =>
      obtain ⟨first, rest⟩ := List.forall_mem_cons.mp nonempty
      have positive := List.length_pos_iff.mpr first
      have further := ih rest
      simp only [List.length_cons, List.flatMap_cons, List.length_append]
      omega

/-- Reading a text always ends at the end of input. Its turns cut the tokens into consecutive
segments, and each comes to one statement or one diagnostic; a segment that comes to a statement
comes to the same on its own. -/
theorem program_turns_cover_tokens (source : String) :
    ∃ turns program final, (Parser.ofSource source).program = (program, final) ∧
      Turns (Parser.ofSource source) turns final ∧
      turns.flatMap Turn.segment = tokenize source ∧
      (∀ turn ∈ turns, turn.segment ≠ []) ∧
      program.statements = turns.filterMap Turn.statement? ∧
      final.errors.toList = turns.filterMap Turn.error? ∧
      (∀ turn ∈ turns, ∀ expr, turn.outcome = .ok expr →
        ({ tokens := turn.segment } : Parser).program =
          ({ statements := [expr] }, { tokens := [] })) ∧
      program.statements.length + final.errors.size ≤ (tokenize source).length ∧
      (program.statements = [] ∧ final.errors = #[] ↔ tokenize source = []) ∧
      final.current = .endOfInput := by
  have inside : .endOfInput ∉ (Parser.ofSource source).tokens :=
    endOfInput_not_mem_tokenize source
  obtain ⟨turns, reads⟩ := program_readsInTurns inside
  have statements := reads.statements
  have errors : _ = turns.filterMap Turn.error? := reads.errors
  rw [List.reverse_nil, List.nil_append] at statements
  have count := Turn.length_statements_add_errors turns
  have covered := Turn.length_le_length_segments reads.nonempty
  rw [← statements, ← errors, Array.length_toList] at count
  have segments : turns.flatMap Turn.segment = tokenize source := reads.segments
  rw [segments] at covered
  refine ⟨turns, (Parser.ofSource source).program.1, (Parser.ofSource source).program.2, rfl,
    reads.run, segments, reads.nonempty, statements, errors,
    fun turn member expr read => reads.run.statement_alone member read, by omega, ?_, ?_⟩
  · constructor
    · rintro ⟨noStatements, noErrors⟩
      rw [noStatements, noErrors] at count
      have empty : turns = [] := List.length_eq_zero_iff.mp count.symm
      rw [← segments, empty, List.flatMap_nil]
    · intro empty
      rw [empty, List.length_nil] at covered
      exact ⟨List.length_eq_zero_iff.mp (by omega), Array.size_eq_zero_iff.mp (by omega)⟩
  · simp [Parser.current, reads.tokens]

end Calculator
