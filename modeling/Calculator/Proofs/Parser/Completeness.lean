import Calculator.Proofs.Grammar
import Calculator.Proofs.Parser.Steps

/-!
# Phrases are read as what they are

Where a phrase is written in front of a token that does not continue it, the parser reads exactly
this phrase, and stops at its end, if the phrase stays within the limit. Otherwise it fails, and for
no other reason than the limit. The induction is over the derivation of the phrase; what it carries
is that the loop of precedence climbing comes through the phrase with its tree on the left.
-/

set_option autoImplicit false

namespace Calculator

/-!
## Levels of precedence and nonterminals
-/

namespace Nonterminal

/-- The tightest threshold at which the parser reads all phrases of a nonterminal. -/
def threshold : Nonterminal → Precedence
  | .sum => .lowest
  | .product => .sum
  | .power => .product
  | .unary => .sign
  | .application => .sign
  | .primary => .call

/-- The tightest that a token behind a phrase may bind without being drawn into its last operand. -/
def follow : Nonterminal → Precedence
  | .sum => .sum
  | .product => .product
  | .power => .product
  | .unary => .sign
  | .application => .call
  | .primary => .call

end Nonterminal

namespace Phrase

def node (phrase : Phrase) : Node :=
  { expr := phrase.tree, height := phrase.tree.height }

end Phrase

/-!
## Runs that succeed if something fits
-/

/-- A run comes to the expected result if something fits, and otherwise to the limit. -/
structure Yields {α : Type} (fits : Prop) (result expected : EStateM.Result ParseError Parser α) :
    Prop where
  accepted : fits → result = expected
  refused : ¬ fits → ∃ after, result = .error (.tooDeep maxNesting) after

namespace Yields

variable {α β : Type} {first second : Prop}

theorem of_eq {result expected : EStateM.Result ParseError Parser α} (holds : first)
    (same : result = expected) : Yields first result expected :=
  ⟨fun _ => same, fun fails => absurd holds fails⟩

theorem congr {result expected : EStateM.Result ParseError Parser α} (same : first ↔ second)
    (yields : Yields second result expected) : Yields first result expected :=
  ⟨fun fits => yields.accepted (same.mp fits), fun fails => yields.refused (mt same.mpr fails)⟩

theorem trans {result middle expected : EStateM.Result ParseError Parser α}
    (yields : Yields first result middle) (further : first → Yields second middle expected) :
    Yields (first ∧ second) result expected where
  accepted fits := (yields.accepted fits.1).trans ((further fits.1).accepted fits.2)
  refused fails := by
    by_cases fits : first
    · obtain ⟨after, failed⟩ := (further fits).refused fun rest => fails ⟨fits, rest⟩
      exact ⟨after, (yields.accepted fits).trans failed⟩
    · exact yields.refused fits

theorem bind {step : ParserM α} {next : α → ParserM β} {parser middle : Parser} {value : α}
    {expected : EStateM.Result ParseError Parser β}
    (yields : Yields first (step parser) (.ok value middle))
    (further : first → Yields second (next value middle) expected) :
    Yields (first ∧ second) ((step >>= next) parser) expected := by
  have begun : Yields first ((step >>= next) parser) (next value middle) := by
    refine ⟨fun fits => bind_run_ok (yields.accepted fits), fun fails => ?_⟩
    obtain ⟨after, failed⟩ := yields.refused fails
    exact ⟨after, bind_run_error failed⟩
  exact begun.trans further

theorem branch (expr : Expr) (tallest : Nat) (parser : Parser) :
    Yields (tallest < maxNesting) (Node.branch (m := ParserM) expr tallest parser)
      (.ok { expr, height := tallest + 1 } parser) :=
  ⟨branch_run_ok, fun tall => ⟨parser, branch_run_error tall⟩⟩

end Yields

/-!
## Operands
-/

/-- Reading begins with the phrase and goes on behind it, wherever the phrase stands in front of a
token that it does not draw in. -/
def Climbs (nonterminal : Nonterminal) (phrase : Phrase) : Prop :=
  ∀ ⦃levels enclosing : Nat⦄ ⦃threshold : Precedence⦄ ⦃parser : Parser⦄ ⦃rest : List Token⦄,
    parser.depth = enclosing + 1 → parser.depth ≤ maxNesting →
    maxNesting ≤ parser.depth + levels →
    threshold ≤ nonterminal.threshold →
    parser.tokens = phrase.tokens ++ rest →
    Precedence.of (rest.headD .endOfInput) ≤ nonterminal.follow →
    Yields (phrase.FitsWithin enclosing) (parseClimbing (parseWithin levels) threshold parser)
      (climb (parseWithin levels) threshold phrase.node
        { parser with tokens := phrase.last :: rest })

private theorem Nonterminal.threshold_le_follow (nonterminal : Nonterminal) :
    nonterminal.threshold ≤ nonterminal.follow := by
  cases nonterminal <;> decide

/-- An operand ends where the lookahead binds no tighter than its threshold. -/
theorem Climbs.operand {nonterminal : Nonterminal} {phrase : Phrase}
    (climbs : Climbs nonterminal phrase) (levels : Nat) (threshold : Precedence)
    (parser : Parser) {rest : List Token} (enough : maxNesting ≤ parser.depth + levels)
    (loose : threshold ≤ nonterminal.threshold) (spelled : parser.tokens = phrase.tokens ++ rest)
    (ends : Precedence.of (rest.headD .endOfInput) ≤ threshold) :
    Yields (phrase.FitsWithin parser.depth) (parseWithin levels threshold parser)
      (.ok phrase.node { parser with tokens := phrase.last :: rest }) := by
  by_cases shallow : parser.depth < maxNesting
  · cases levels with
    | zero => omega
    | succ levels =>
        have inner : Yields (phrase.FitsWithin parser.depth)
            (parseClimbing (parseWithin levels) threshold parser.descend)
            (climb (parseWithin levels) threshold phrase.node
              { parser.descend with tokens := phrase.last :: rest }) :=
          climbs rfl shallow (by simp only [Parser.descend]; omega) loose spelled
            (Nat.le_trans (Nat.le_trans ends loose) nonterminal.threshold_le_follow)
        have stops : ¬ threshold < Precedence.of
            (Parser.lookahead { parser.descend with tokens := phrase.last :: rest }) :=
          Nat.not_lt.mpr ends
        rw [climb_run_stop stops] at inner
        constructor
        · intro fits
          exact nested_run_ok shallow (inner.accepted fits)
        · intro fails
          obtain ⟨after, failed⟩ := inner.refused fails
          exact ⟨after.ascend, nested_run_error shallow failed⟩
  · have positive := phrase.one_le_depth
    refine ⟨fun fits => absurd fits.1 (by omega), fun _ => ⟨parser, ?_⟩⟩
    cases levels with
    | zero => rfl
    | succ levels => exact nested_run_refused shallow

theorem Climbs.operandBehind {nonterminal : Nonterminal} {phrase : Phrase}
    (climbs : Climbs nonterminal phrase) {levels : Nat} (threshold : Precedence)
    {parser : Parser} {token : Token} {rest : List Token}
    (enough : maxNesting ≤ parser.depth + levels)
    (loose : threshold ≤ nonterminal.threshold)
    (spelled : parser.tokens = token :: (phrase.tokens ++ rest))
    (ends : Precedence.of (rest.headD .endOfInput) ≤ threshold) :
    Yields (phrase.FitsWithin parser.depth) (parseWithin levels threshold parser.advance)
      (.ok phrase.node { parser with tokens := phrase.last :: rest }) :=
  climbs.operand levels threshold parser.advance enough loose
    (by simp [Parser.advance, spelled]) ends

/-!
## Primary phrases and signs
-/

theorem Parser.with_tokens_eq {parser : Parser} {tokens : List Token}
    (spelled : parser.tokens = tokens) : { parser with tokens } = parser := by
  cases parser
  cases spelled
  rfl

theorem Parser.current_eq {parser : Parser} {token : Token} {rest : List Token}
    (spelled : parser.tokens = token :: rest) : parser.current = token := by
  simp only [Parser.current, spelled, List.headD_cons]

theorem Yields.climbing {fits : Prop} {levels : Nat} {threshold : Precedence}
    {parser after : Parser} {node : Node}
    (yields : Yields fits (parsePrimary (parseWithin levels) parser) (.ok node after)) :
    Yields fits (parseClimbing (parseWithin levels) threshold parser)
      (climb (parseWithin levels) threshold node after) := by
  rw [parseClimbing_run]
  exact .congr (and_true fits).symm.to_iff (yields.bind fun _ => .of_eq trivial rfl)

theorem Climbs.number (value : Float) : Climbs .primary (.number value) := by
  intro levels enclosing threshold parser rest inside shallow enough loose spelled ends
  have opened : parser.tokens = .number value :: rest := spelled
  apply Yields.climbing
  rw [parsePrimary_run, Parser.current_eq opened]
  exact .of_eq (Phrase.fitsWithin_of_leaf rfl rfl (by omega))
    (congrArg (EStateM.Result.ok _) (Parser.with_tokens_eq opened).symm)

theorem Climbs.identifier (name : String) : Climbs .primary (.identifier name) := by
  intro levels enclosing threshold parser rest inside shallow enough loose spelled ends
  have opened : parser.tokens = .identifier name :: rest := spelled
  apply Yields.climbing
  rw [parsePrimary_run, Parser.current_eq opened]
  exact .of_eq (Phrase.fitsWithin_of_leaf rfl rfl (by omega))
    (congrArg (EStateM.Result.ok _) (Parser.with_tokens_eq opened).symm)

theorem Climbs.group {inner : Phrase} (climbs : Climbs .sum inner) :
    Climbs .primary (.group inner) := by
  intro levels enclosing threshold parser rest inside shallow enough loose spelled ends
  have opened : parser.tokens = .leftParen :: (inner.tokens ++ .rightParen :: rest) := by
    simpa [Phrase.tokens] using spelled
  apply Yields.climbing
  rw [parsePrimary_run, Parser.current_eq opened]
  dsimp only
  rw [parseGroup_run]
  have read := climbs.operandBehind .lowest enough (Nat.le_refl _) opened (Nat.le_refl _)
  refine .congr (Phrase.fitsWithin_group_iff.trans (and_true _).symm.to_iff) ?_
  rw [← inside]
  refine read.bind fun _ => .of_eq trivial ?_
  rw [bind_run_ok (expectClosing_run_ok rfl)]
  rfl

theorem Climbs.signed {sign : Sign} {operand : Phrase} (climbs : Climbs .unary operand) :
    Climbs .unary (.signed sign operand) := by
  intro levels enclosing threshold parser rest inside shallow enough loose spelled ends
  have opened : parser.tokens = sign.token :: (operand.tokens ++ rest) := spelled
  apply Yields.climbing
  have rule : parsePrimary (parseWithin levels) parser =
      parseSigned (parseWithin levels) sign parser := by
    rw [parsePrimary_run, Parser.current_eq opened]
    cases sign <;> rfl
  rw [rule, parseSigned_run]
  have read := climbs.operandBehind .sign enough (Nat.le_refl _) opened ends
  refine .congr Phrase.fitsWithin_signed_iff ?_
  rw [← inside]
  exact read.bind fun _ => .branch _ _ _

/-!
## Operators
-/

theorem parseExtension_run_call {operand : Precedence → ParserM Node} {parser : Parser}
    {left : Node} (current : parser.current = .leftParen) :
    parseExtension operand left parser = parseCall operand left parser := by
  rw [parseExtension_run, current]

theorem parseExtension_run_binary {operand : Precedence → ParserM Node} {parser : Parser}
    {left : Node} {operator : Operator} (current : parser.current = operator.token) :
    parseExtension operand left parser = parseBinary operand left operator parser := by
  rw [parseExtension_run, current]
  cases operator <;> rfl

private theorem parseBinary_yields {nonterminal : Nonterminal} {right : Phrase}
    (climbs : Climbs nonterminal right) (left : Node) (parser : Parser) {levels : Nat}
    {operator : Operator} {rest : List Token} (enough : maxNesting ≤ parser.depth + levels)
    (loose : operator.rightPrecedence ≤ nonterminal.threshold)
    (spelled : parser.tokens = operator.token :: (right.tokens ++ rest))
    (ends : Precedence.of (rest.headD .endOfInput) ≤ operator.rightPrecedence) :
    Yields (right.FitsWithin parser.depth ∧ max left.height right.tree.height < maxNesting)
      (parseExtension (parseWithin levels) left parser)
      (.ok { expr := .binary left.expr operator right.tree,
             height := max left.height right.tree.height + 1 }
        { parser with tokens := right.last :: rest }) := by
  rw [parseExtension_run_binary (Parser.current_eq spelled), parseBinary_run]
  have read := climbs.operandBehind operator.rightPrecedence enough loose spelled ends
  exact read.bind fun _ => .branch _ _ _

/-- An operator stands between a phrase that it does not let draw it in and one that it draws in
itself. -/
theorem Climbs.binary {whole leftOperand rightOperand : Nonterminal} {left right : Phrase}
    {operator : Operator} (leftClimbs : Climbs leftOperand left)
    (rightClimbs : Climbs rightOperand right)
    (binds : whole.threshold < Precedence.of operator.token)
    (reaches : whole.threshold ≤ leftOperand.threshold)
    (stays : Precedence.of operator.token ≤ leftOperand.follow)
    (loose : operator.rightPrecedence ≤ rightOperand.threshold)
    (follows : whole.follow ≤ operator.rightPrecedence) :
    Climbs whole (.binary left operator right) := by
  intro levels enclosing threshold parser rest inside shallow enough below spelled ends
  have front : parser.tokens = left.tokens ++ (operator.token :: (right.tokens ++ rest)) := by
    simpa [Phrase.tokens] using spelled
  refine .congr Phrase.fitsWithin_binary_iff ?_
  refine (leftClimbs inside shallow enough (Nat.le_trans below reaches) front stays).trans
    fun _ => ?_
  have continues : threshold < Precedence.of (Parser.lookahead
      { parser with tokens := left.last :: operator.token :: (right.tokens ++ rest) }) :=
    Nat.lt_of_le_of_lt below binds
  rw [climb_run_extend (parseWithin_consumesOnly levels) continues, ← inside]
  have extended := parseBinary_yields rightClimbs left.node
    { parser with tokens := operator.token :: (right.tokens ++ rest) } enough loose rfl
    (Nat.le_trans ends follows)
  exact .congr (and_true _).symm.to_iff (extended.bind fun _ => .of_eq trivial rfl)

/-!
## Calls
-/

/-- The loop over arguments reads each of them and stops in front of the closing parenthesis. -/
theorem parseArgumentsWithin_yields {argument : Phrase} {arguments : List Phrase}
    (climb : ∀ phrase ∈ argument :: arguments, Climbs .sum phrase)
    (parser : Parser) (bound : List Token) (read : List Expr) (tallest : Nat) {levels : Nat}
    {separator : Token} {rest : List Token} (enough : maxNesting ≤ parser.depth + levels)
    (spelled : parser.tokens = separator ::
      (argument.tokens ++ (Phrase.furtherTokens arguments ++ .rightParen :: rest)))
    (longEnough : parser.tokens.length ≤ bound.length) :
    ∃ last, Yields (Phrase.ArgumentsFitWithin parser.depth (argument :: arguments))
      (parseArgumentsWithin (parseWithin levels) bound read tallest parser)
      (.ok (read.reverse ++ Phrase.trees (argument :: arguments),
          Expr.tallest tallest (Phrase.trees (argument :: arguments)))
        { parser with tokens := last :: .rightParen :: rest }) := by
  induction arguments generalizing argument parser separator bound read tallest with
  | nil =>
      cases bound with
      | nil => simp [spelled] at longEnough
      | cons token bound =>
          have reads := (climb argument List.mem_cons_self).operandBehind .lowest enough
            (Nat.le_refl _) spelled (Nat.le_refl _)
          have single : Phrase.ArgumentsFitWithin parser.depth [argument] ↔
              argument.FitsWithin parser.depth ∧ True := by
            simp [Phrase.ArgumentsFitWithin]
          refine ⟨argument.last, .congr single ?_⟩
          rw [parseArgumentsWithin_run_cons]
          refine reads.bind fun _ => .of_eq trivial ?_
          simp only [Parser.lookahead, List.tail_cons, List.reverse_cons]
          rfl
  | cons second arguments ih =>
      cases bound with
      | nil => simp [spelled] at longEnough
      | cons token bound =>
          have separated : parser.tokens = separator :: (argument.tokens ++ .comma ::
              (second.tokens ++ (Phrase.furtherTokens arguments ++ .rightParen :: rest))) := by
            simpa [Phrase.furtherTokens] using spelled
          have reads := (climb argument List.mem_cons_self).operandBehind .lowest enough
            (Nat.le_refl _) separated (Nat.le_refl _)
          obtain ⟨last, further⟩ := ih
            (fun phrase member => climb phrase (List.mem_cons_of_mem _ member))
            { parser with tokens := .comma ::
              (second.tokens ++ (Phrase.furtherTokens arguments ++ .rightParen :: rest)) }
            bound (argument.tree :: read) (max tallest argument.tree.height) enough rfl (by
              simp only [separated, List.length_cons, List.length_append] at longEnough ⊢
              omega)
          refine ⟨last, .congr Phrase.argumentsFitWithin_cons_iff ?_⟩
          rw [parseArgumentsWithin_run_cons]
          refine reads.bind fun _ => ?_
          have inOrder : (argument.tree :: read).reverse ++ Phrase.trees (second :: arguments) =
              read.reverse ++ Phrase.trees (argument :: second :: arguments) := by
            simp [Phrase.trees]
          rw [inOrder] at further
          exact further

private theorem parseArguments_yields {arguments : List Phrase}
    (climb : ∀ phrase ∈ arguments, Climbs .sum phrase) {levels : Nat} {parser : Parser}
    {rest : List Token} (enough : maxNesting ≤ parser.depth + levels)
    (spelled : parser.tokens =
      .leftParen :: (Phrase.argumentTokens arguments ++ .rightParen :: rest)) :
    Yields (Phrase.ArgumentsFitWithin parser.depth arguments)
      (parseArguments (parseWithin levels) parser)
      (.ok (Phrase.trees arguments, Expr.tallest 0 (Phrase.trees arguments))
        { parser with tokens := .rightParen :: rest }) := by
  cases arguments with
  | nil =>
      have closing : parser.lookahead = .rightParen := by
        simp [Parser.lookahead, spelled, Phrase.argumentTokens]
      refine .of_eq (by simp [Phrase.ArgumentsFitWithin]) ?_
      rw [parseArguments_run_empty closing]
      simp [Parser.advance, spelled, Phrase.argumentTokens, Phrase.trees, Expr.tallest]
  | cons argument arguments =>
      obtain ⟨token, tail, shape, begins⟩ := argument.tokens_eq_cons
      have opening : parser.lookahead ≠ .rightParen := by
        simp only [Parser.lookahead, spelled, Phrase.argumentTokens, shape, List.tail_cons,
          List.cons_append, List.headD_cons]
        rintro rfl
        cases begins
      have behind : parser.tokens = .leftParen ::
          (argument.tokens ++ (Phrase.furtherTokens arguments ++ .rightParen :: rest)) := by
        simpa [Phrase.argumentTokens] using spelled
      obtain ⟨last, loop⟩ :=
        parseArgumentsWithin_yields climb parser parser.tokens [] 0 enough behind (Nat.le_refl _)
      rw [parseArguments_run opening]
      exact .congr (and_true _).symm.to_iff (loop.bind fun _ => .of_eq trivial rfl)

private theorem parseCall_yields {arguments : List Phrase}
    (climb : ∀ phrase ∈ arguments, Climbs .sum phrase) (function : Node) (parser : Parser)
    {levels : Nat} {rest : List Token} (enough : maxNesting ≤ parser.depth + levels)
    (spelled : parser.tokens =
      .leftParen :: (Phrase.argumentTokens arguments ++ .rightParen :: rest)) :
    Yields (Phrase.ArgumentsFitWithin parser.depth arguments ∧
        max function.height (Expr.tallest 0 (Phrase.trees arguments)) < maxNesting)
      (parseExtension (parseWithin levels) function parser)
      (.ok { expr := .call function.expr (Phrase.trees arguments),
             height := max function.height (Expr.tallest 0 (Phrase.trees arguments)) + 1 }
        { parser with tokens := .rightParen :: rest }) := by
  rw [parseExtension_run_call (Parser.current_eq spelled), parseCall_run]
  exact (parseArguments_yields climb enough spelled).bind fun _ => .branch _ _ _

theorem Climbs.call {function : Phrase} {arguments : List Phrase}
    (functionClimbs : Climbs .application function)
    (argumentsClimb : ∀ argument ∈ arguments, Climbs .sum argument) :
    Climbs .application (.call function arguments) := by
  intro levels enclosing threshold parser rest inside shallow enough loose spelled ends
  have front : parser.tokens = function.tokens ++ (.leftParen ::
      (Phrase.argumentTokens arguments ++ .rightParen :: rest)) := by
    simpa [Phrase.tokens] using spelled
  refine .congr Phrase.fitsWithin_call_iff ?_
  refine (functionClimbs inside shallow enough loose front (Nat.le_refl _)).trans fun _ => ?_
  have continues : threshold < Precedence.of (Parser.lookahead { parser with
      tokens := function.last :: .leftParen ::
        (Phrase.argumentTokens arguments ++ .rightParen :: rest) }) :=
    Nat.lt_succ_of_le loose
  rw [climb_run_extend (parseWithin_consumesOnly levels) continues, ← inside]
  have extended := parseCall_yields argumentsClimb function.node
    { parser with tokens := .leftParen ::
      (Phrase.argumentTokens arguments ++ .rightParen :: rest) } enough rfl
  exact .congr (and_true _).symm.to_iff (extended.bind fun _ => .of_eq trivial rfl)

/-!
## All phrases
-/

private theorem Climbs.loosen {tight loose : Nonterminal} {phrase : Phrase}
    (climbs : Climbs tight phrase)
    (threshold : loose.threshold ≤ tight.threshold) (follow : loose.follow ≤ tight.follow) :
    Climbs loose phrase :=
  fun _ _ _ _ _ inside shallow enough below spelled ends =>
    climbs inside shallow enough (Nat.le_trans below threshold) spelled (Nat.le_trans ends follow)

/-- The parser comes through every phrase of the grammar. -/
theorem Derives.climbs {nonterminal : Nonterminal} {phrase : Phrase}
    (derived : Derives nonterminal phrase) : Climbs nonterminal phrase := by
  induction derived with
  | number => exact Climbs.number _
  | identifier => exact Climbs.identifier _
  | group _ ih => exact Climbs.group ih
  | ofPrimary _ ih => exact ih.loosen (by decide) (by decide)
  | call _ _ functionIH argumentsIH => exact Climbs.call functionIH argumentsIH
  | ofApplication _ ih => exact ih.loosen (by decide) (by decide)
  | signed _ ih => exact Climbs.signed ih
  | ofUnary _ ih => exact ih.loosen (by decide) (by decide)
  | power _ _ leftIH rightIH =>
      exact leftIH.binary rightIH (by decide) (by decide) (by decide) (by decide) (by decide)
  | ofPower _ ih => exact ih.loosen (by decide) (by decide)
  | product operator _ _ leftIH rightIH =>
      obtain rfl | rfl := operator <;>
        exact leftIH.binary rightIH (by decide) (by decide) (by decide) (by decide) (by decide)
  | ofProduct _ ih => exact ih.loosen (by decide) (by decide)
  | sum operator _ _ leftIH rightIH =>
      obtain rfl | rfl := operator <;>
        exact leftIH.binary rightIH (by decide) (by decide) (by decide) (by decide) (by decide)

end Calculator
