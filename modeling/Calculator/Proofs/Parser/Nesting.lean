import Calculator.Proofs.Parser.Recovery

/-!
# Nesting

How deep the parser goes, and how tall the trees are that it builds. To see a whole run and not only
its end, the rules are run in a monad that keeps every state they pass and every node they make. Such
a run comes to the same as the plain one, so what its record shows holds of the plain one too.
-/

set_option autoImplicit false

namespace Calculator

/-!
## Runs on record
-/

/-- A parser, the states that it has passed, and the nodes that have been made. -/
structure Recorder where
  parser : Parser
  passed : List Parser
  built : List Node

namespace Recorder

def start (parser : Parser) : Recorder :=
  { parser, passed := [parser], built := [] }

def pass (recorder : Recorder) (parser : Parser) : Recorder :=
  { recorder with parser, passed := parser :: recorder.passed }

def note (recorder : Recorder) (node : Node) : Recorder :=
  { recorder with built := node :: recorder.built }

end Recorder

/-- Steps that keep a record. -/
def RecorderM :=
  EStateM ParseError Recorder

namespace RecorderM

instance : Monad RecorderM :=
  inferInstanceAs (Monad (EStateM ParseError Recorder))

instance : MonadExcept ParseError RecorderM :=
  inferInstanceAs (MonadExcept ParseError (EStateM ParseError Recorder))

instance : MonadFinally RecorderM :=
  inferInstanceAs (MonadFinally (EStateM ParseError Recorder))

instance : MonadState Parser RecorderM where
  get recorder := .ok recorder.parser recorder
  set parser recorder := .ok () (recorder.pass parser)
  modifyGet change recorder :=
    .ok (change recorder.parser).1 (recorder.pass (change recorder.parser).2)

instance : MonadBuild RecorderM where
  build node recorder := .ok node (recorder.note node)

section Sequences

variable {α β : Type} {step : RecorderM α} {next : α → RecorderM β} {recorder after : Recorder}

private theorem get_bind_run (next : Parser → RecorderM β) (recorder : Recorder) :
    (get >>= next) recorder = next recorder.parser recorder := rfl

private theorem modify_bind_run (change : Parser → Parser) (next : Unit → RecorderM β)
    (recorder : Recorder) :
    (modify change >>= next) recorder = next () (recorder.pass (change recorder.parser)) := rfl

private theorem bind_run_ok {value : α} (ran : step recorder = .ok value after) :
    (step >>= next) recorder = next value after := by
  show EStateM.bind step next recorder = _
  simp only [EStateM.bind, ran]

private theorem bind_run_error {error : ParseError} (ran : step recorder = .error error after) :
    (step >>= next) recorder = .error error after := by
  show EStateM.bind step next recorder = _
  simp only [EStateM.bind, ran]

private theorem nested_run_ok {value : α} (shallow : recorder.parser.depth < maxNesting)
    (ran : step (recorder.pass recorder.parser.descend) = .ok value after) :
    nested step recorder = .ok value (after.pass after.parser.ascend) := by
  rw [nested, get_bind_run, if_pos shallow, modify_bind_run]
  show EStateM.map Prod.fst
    (tryFinally' (m := EStateM ParseError Recorder) step fun _ =>
      modify (m := RecorderM) Parser.ascend) _ = _
  simp only [EStateM.map, tryFinally', ran]
  rfl

private theorem nested_run_error {error : ParseError} (shallow : recorder.parser.depth < maxNesting)
    (ran : step (recorder.pass recorder.parser.descend) = .error error after) :
    nested step recorder = .error error (after.pass after.parser.ascend) := by
  rw [nested, get_bind_run, if_pos shallow, modify_bind_run]
  show EStateM.map Prod.fst
    (tryFinally' (m := EStateM ParseError Recorder) step fun _ =>
      modify (m := RecorderM) Parser.ascend) _ = _
  simp only [EStateM.map, tryFinally', ran]
  rfl

private theorem nested_run_refused (deep : ¬ recorder.parser.depth < maxNesting) :
    nested step recorder = .error (.tooDeep maxNesting) recorder := by
  rw [nested, get_bind_run, if_neg deep]
  rfl

end Sequences

end RecorderM

/-!
## Records change nothing
-/

namespace Recorder

variable {α : Type}

def outcome : EStateM.Result ParseError Recorder α → EStateM.Result ParseError Parser α
  | .ok value recorder => .ok value recorder.parser
  | .error error recorder => .error error recorder.parser

def final : EStateM.Result ParseError Recorder α → Recorder
  | .ok _ recorder => recorder
  | .error _ recorder => recorder

end Recorder

/-- A step on record that comes to the same as a plain one. -/
def Mirrors {α : Type} (step : RecorderM α) (plain : ParserM α) : Prop :=
  ∀ recorder, Recorder.outcome (step recorder) = plain recorder.parser

namespace Mirrors

variable {α β : Type} {step : RecorderM α} {plain : ParserM α}

theorem sequence {next : α → RecorderM β} {plainNext : α → ParserM β} (first : Mirrors step plain)
    (second : ∀ value, Mirrors (next value) (plainNext value)) :
    Mirrors (step >>= next) (plain >>= plainNext) := by
  intro recorder
  have same := (first recorder).symm
  cases ran : step recorder with
  | ok value after =>
      rw [ran] at same
      rw [RecorderM.bind_run_ok ran, second value after, bind_run_ok same]
  | error error after =>
      rw [ran] at same
      rw [RecorderM.bind_run_error ran, bind_run_error same]
      rfl

theorem inside (mirrors : Mirrors step plain) : Mirrors (nested step) (nested plain) := by
  intro recorder
  by_cases shallow : recorder.parser.depth < maxNesting
  · have same := (mirrors (recorder.pass recorder.parser.descend)).symm
    cases ran : step (recorder.pass recorder.parser.descend) with
    | ok value after =>
        rw [ran] at same
        rw [RecorderM.nested_run_ok shallow ran, nested_run_ok shallow same]
        rfl
    | error error after =>
        rw [ran] at same
        rw [RecorderM.nested_run_error shallow ran, nested_run_error shallow same]
        rfl
  · rw [RecorderM.nested_run_refused shallow, nested_run_refused shallow]
    rfl

theorem relation : StepRelation (m := RecorderM) (n := ParserM) Mirrors where
  value _ _ := rfl
  node _ _ := rfl
  failure _ _ := rfl
  state _ := rfl
  advance _ := rfl
  sequence := sequence
  inside := inside

end Mirrors

/-!
## Staying within the limit
-/

/-- A node that carries the height of its tree, within the limit. -/
structure Node.Measured (node : Node) : Prop where
  height : node.height = node.expr.height
  bounded : node.height ≤ maxNesting

/-- Neither a state nor a node on record exceeds the limit. -/
structure Recorder.WithinLimit (recorder : Recorder) : Prop where
  shallow : recorder.parser.depth ≤ maxNesting
  passed : ∀ parser ∈ recorder.passed, parser.depth ≤ maxNesting
  built : ∀ node ∈ recorder.built, node.Measured

/-- A step that stays within the limit, keeps the depth also when it fails, and returns only what is
expected. -/
def StaysWithin {α : Type} (returned : α → Prop) (step : RecorderM α) : Prop :=
  ∀ recorder, recorder.WithinLimit →
    (Recorder.final (step recorder)).WithinLimit ∧
      (Recorder.final (step recorder)).parser.depth = recorder.parser.depth ∧
      ∀ value after, step recorder = .ok value after → returned value

namespace Recorder.WithinLimit

theorem start {parser : Parser} (shallow : parser.depth ≤ maxNesting) :
    (Recorder.start parser).WithinLimit :=
  ⟨shallow, by simpa [Recorder.start] using shallow, by simp [Recorder.start]⟩

theorem pass {recorder : Recorder} {parser : Parser} (within : recorder.WithinLimit)
    (shallow : parser.depth ≤ maxNesting) : (recorder.pass parser).WithinLimit :=
  ⟨shallow, List.forall_mem_cons.mpr ⟨shallow, within.passed⟩, within.built⟩

private theorem note {recorder : Recorder} {node : Node} (within : recorder.WithinLimit)
    (measured : node.Measured) : (recorder.note node).WithinLimit :=
  ⟨within.shallow, within.passed, List.forall_mem_cons.mpr ⟨measured, within.built⟩⟩

end Recorder.WithinLimit

namespace StaysWithin

variable {α β : Type} {returned : α → Prop} {result : β → Prop}

theorem value {value : α} (expected : returned value) :
    StaysWithin returned (pure value) := by
  intro recorder within
  exact ⟨within, rfl, fun _ _ ran => by cases ran; exact expected⟩

theorem failure (error : ParseError) : StaysWithin returned (throw error) := by
  intro recorder within
  exact ⟨within, rfl, fun _ _ ran => by cases ran⟩

theorem state : StaysWithin (fun _ => True) (get : RecorderM Parser) := by
  intro recorder within
  exact ⟨within, rfl, fun _ _ _ => trivial⟩

theorem advance : StaysWithin (fun _ => True) (modify Parser.advance : RecorderM Unit) := by
  intro recorder within
  exact ⟨within.pass within.shallow, rfl, fun _ _ _ => trivial⟩

theorem node {node : Node} (measured : node.Measured) :
    StaysWithin Node.Measured (build node : RecorderM Node) := by
  intro recorder within
  exact ⟨within.note measured, rfl, fun _ _ ran => by cases ran; exact measured⟩

theorem sequence {step : RecorderM α} {next : α → RecorderM β} (first : StaysWithin returned step)
    (second : ∀ value, returned value → StaysWithin result (next value)) :
    StaysWithin result (step >>= next) := by
  intro recorder within
  obtain ⟨kept, depth, expected⟩ := first recorder within
  cases ran : step recorder with
  | ok value after =>
      rw [ran] at kept depth
      obtain ⟨final, finalDepth, rest⟩ := second value (expected value after ran) after kept
      rw [RecorderM.bind_run_ok ran]
      exact ⟨final, finalDepth.trans depth, rest⟩
  | error error after =>
      rw [ran] at kept depth
      rw [RecorderM.bind_run_error ran]
      exact ⟨kept, depth, fun _ _ succeeded => by cases succeeded⟩

theorem inside {step : RecorderM α} (stays : StaysWithin returned step) :
    StaysWithin returned (nested step) := by
  intro recorder within
  by_cases shallow : recorder.parser.depth < maxNesting
  · obtain ⟨kept, depth, expected⟩ :=
      stays (recorder.pass recorder.parser.descend) (within.pass shallow)
    have outside : (Recorder.final (step (recorder.pass
        recorder.parser.descend))).parser.ascend.depth = recorder.parser.depth :=
      Nat.sub_eq_of_eq_add depth
    have left := kept.pass (Nat.le_trans (Nat.le_of_eq outside) within.shallow)
    cases ran : step (recorder.pass recorder.parser.descend) with
    | ok value after =>
        rw [ran] at outside left
        rw [RecorderM.nested_run_ok shallow ran]
        refine ⟨left, outside, fun _ _ succeeded => ?_⟩
        cases succeeded
        exact expected value after ran
    | error error after =>
        rw [ran] at outside left
        rw [RecorderM.nested_run_error shallow ran]
        exact ⟨left, outside, fun _ _ succeeded => by cases succeeded⟩
  · rw [RecorderM.nested_run_refused shallow]
    exact ⟨within, rfl, fun _ _ succeeded => by cases succeeded⟩

private theorem leaf {expr : Expr} (height : expr.height = 1) :
    StaysWithin Node.Measured (Node.leaf expr : RecorderM Node) :=
  node ⟨height.symm, by simp [maxNesting]⟩

theorem branch {expr : Expr} {tallest : Nat} (height : expr.height = tallest + 1) :
    StaysWithin Node.Measured (Node.branch expr tallest : RecorderM Node) := by
  unfold Node.branch
  split
  · rename_i fits
    exact node ⟨height.symm, fits⟩
  · exact failure _

theorem expectClosing : StaysWithin (fun _ => True) (expectClosing : RecorderM Unit) := by
  refine state.sequence fun parser _ => ?_
  split
  · exact advance
  · exact failure _

end StaysWithin

/-!
## Every rule stays within the limit
-/

section Rules

variable {operand : Precedence → RecorderM Node}
variable (operands : ∀ threshold, StaysWithin Node.Measured (operand threshold))
include operands

private theorem parseSigned_staysWithin (sign : Sign) :
    StaysWithin Node.Measured (parseSigned operand sign) := by
  refine StaysWithin.advance.sequence fun _ _ => ?_
  refine (operands .sign).sequence fun inner measured => ?_
  exact .branch (by rw [Expr.height, measured.height])

private theorem parseGroup_staysWithin : StaysWithin Node.Measured (parseGroup operand) := by
  refine StaysWithin.advance.sequence fun _ _ => ?_
  refine (operands .lowest).sequence fun inner measured => ?_
  exact StaysWithin.expectClosing.sequence fun _ _ => .value measured

private theorem parsePrimary_staysWithin : StaysWithin Node.Measured (parsePrimary operand) := by
  refine StaysWithin.state.sequence fun parser _ => ?_
  split
  · exact .leaf rfl
  · exact .leaf rfl
  · exact parseSigned_staysWithin operands .plus
  · exact parseSigned_staysWithin operands .minus
  · exact parseGroup_staysWithin operands
  · exact .failure _
  · exact .failure _

private theorem parseBinary_staysWithin {left : Node} (measured : left.Measured)
    (operator : Operator) :
    StaysWithin Node.Measured (parseBinary operand left operator) := by
  refine StaysWithin.advance.sequence fun _ _ => ?_
  refine (operands operator.rightPrecedence).sequence fun right rightMeasured => ?_
  exact .branch (by rw [Expr.height, measured.height, rightMeasured.height])

/-- The height that goes along with arguments is that of the tallest. -/
theorem parseArgumentsWithin_staysWithin (bound : List Token) (read : List Expr) :
    StaysWithin (fun result => result.2 = Expr.tallest 0 result.1)
      (parseArgumentsWithin operand bound read (Expr.tallest 0 read.reverse)) := by
  induction bound generalizing read with
  | nil => exact .value rfl
  | cons token bound ih =>
      refine StaysWithin.advance.sequence fun _ _ => ?_
      refine (operands .lowest).sequence fun argument measured => ?_
      have further : max (Expr.tallest 0 read.reverse) argument.height =
          Expr.tallest 0 (argument.expr :: read).reverse := by
        rw [List.reverse_cons, Expr.tallest_append, measured.height]
        rfl
      dsimp only
      rw [further]
      refine StaysWithin.state.sequence fun parser _ => ?_
      split
      · exact StaysWithin.advance.sequence fun _ _ => ih (argument.expr :: read)
      · exact .value rfl

private theorem parseArguments_staysWithin :
    StaysWithin (fun result => result.2 = Expr.tallest 0 result.1) (parseArguments operand) := by
  refine StaysWithin.state.sequence fun parser _ => ?_
  split
  · exact StaysWithin.advance.sequence fun _ _ => .value rfl
  · refine StaysWithin.state.sequence fun parser _ => ?_
    refine (parseArgumentsWithin_staysWithin operands parser.tokens []).sequence
      fun result tallest => ?_
    exact StaysWithin.expectClosing.sequence fun _ _ => .value tallest

private theorem parseCall_staysWithin {function : Node} (measured : function.Measured) :
    StaysWithin Node.Measured (parseCall operand function) := by
  refine (parseArguments_staysWithin operands).sequence fun result tallest => ?_
  exact .branch (by rw [Expr.height, measured.height, ← tallest])

private theorem parseExtension_staysWithin {left : Node} (measured : left.Measured) :
    StaysWithin Node.Measured (parseExtension operand left) := by
  refine StaysWithin.state.sequence fun parser _ => ?_
  split
  · exact parseCall_staysWithin operands measured
  · split
    · exact parseBinary_staysWithin operands measured _
    · exact .failure _

private theorem climbWithin_staysWithin (threshold : Precedence) (bound : List Token) {left : Node}
    (measured : left.Measured) :
    StaysWithin Node.Measured (climbWithin operand threshold bound left) := by
  induction bound generalizing left with
  | nil => exact .value measured
  | cons token bound ih =>
      refine StaysWithin.state.sequence fun parser _ => ?_
      split
      · refine StaysWithin.advance.sequence fun _ _ => ?_
        exact (parseExtension_staysWithin operands measured).sequence fun _ => ih
      · exact .value measured

private theorem parseClimbing_staysWithin (threshold : Precedence) :
    StaysWithin Node.Measured (parseClimbing operand threshold) := by
  refine (parsePrimary_staysWithin operands).sequence fun left measured => ?_
  refine StaysWithin.state.sequence fun parser _ => ?_
  exact climbWithin_staysWithin operands threshold parser.tokens measured

end Rules

private theorem parseNode_staysWithin (levels : Nat) (threshold : Precedence) :
    StaysWithin Node.Measured (parseNode levels threshold) := by
  induction levels generalizing threshold with
  | zero => exact .failure _
  | succ levels ih => exact (parseClimbing_staysWithin ih threshold).inside

/-!
## Parsers in use
-/

def recordedRun (threshold : Precedence) (parser : Parser) :
    EStateM.Result ParseError Recorder Node :=
  (parseNode maxNesting threshold : RecorderM Node) (.start parser)

/-- What reading one expression keeps. Its run on record comes to the same as the plain one; no
state on the way is deeper than the limit, and no node that is made, also where the expression fails
in the end, has another height than its tree or exceeds the limit. -/
structure ParsesWithinLimit (threshold : Precedence) (parser : Parser) : Prop where
  recorded : Recorder.outcome (recordedRun threshold parser) =
    parseWithin maxNesting threshold parser
  passed : ∀ state ∈ (Recorder.final (recordedRun threshold parser)).passed,
    state.depth ≤ maxNesting
  built : ∀ node ∈ (Recorder.final (recordedRun threshold parser)).built, node.Measured
  depth : (parser.after (parseExpression threshold)).depth = parser.depth
  height : ∀ expr after, parseExpression threshold parser = .ok expr after →
    expr.height ≤ maxNesting

theorem parseExpression_parsesWithinLimit {parser : Parser} (shallow : parser.depth ≤ maxNesting)
    (threshold : Precedence) : ParsesWithinLimit threshold parser := by
  obtain ⟨within, -, measured⟩ :=
    parseNode_staysWithin maxNesting threshold (.start parser) (.start shallow)
  have recorded := Mirrors.relation.onTokens.parseNode maxNesting threshold (.start parser)
  refine ⟨recorded, within.passed, within.built, ?_, ?_⟩
  · exact (parseExpression_consumesOnly threshold parser).depth
  · intro expr after ran
    obtain ⟨node, middle, nodeRan, built⟩ := bind_run_ok_components ran
    cases built
    have same := recorded.trans nodeRan
    cases run : (parseNode maxNesting threshold : RecorderM Node) (.start parser) with
    | ok value final =>
        rw [run] at same
        cases same
        have found := measured node final run
        exact found.height ▸ found.bounded
    | error error final =>
        rw [run] at same
        cases same

/-- What a parser is asked for: an expression, one turn of reading a text, or the whole text. -/
inductive Parser.Call where
  | expression (threshold : Precedence)
  | turn
  | program

def Parser.Call.run (parser : Parser) : Parser.Call → Parser
  | .expression threshold => parser.after (parseExpression threshold)
  | .turn => parser.statement.2
  | .program => parser.program.2

def Parser.afterCalls (parser : Parser) (calls : List Parser.Call) : Parser :=
  calls.foldl Parser.Call.run parser

private theorem Turns.final_eq {parser final : Parser} {turns : List Turn}
    (run : Turns parser turns final) :
    final = parser.afterCalls (List.replicate turns.length .turn) := by
  induction run with
  | done => rfl
  | statement current ran spelled rest ih =>
      rw [ih, List.length_cons, List.replicate_succ, Parser.afterCalls, Parser.afterCalls,
        List.foldl_cons, Parser.Call.run, Parser.statement, ran]
  | failure current ran spelled rest ih =>
      rw [ih, List.length_cons, List.replicate_succ, Parser.afterCalls, Parser.afterCalls,
        List.foldl_cons, Parser.Call.run, Parser.statement, ran]

theorem Turns.height_le {parser final : Parser} {turns : List Turn} (run : Turns parser turns final)
    (shallow : parser.depth ≤ maxNesting) :
    ∀ expr ∈ turns.filterMap Turn.statement?, expr.height ≤ maxNesting := by
  induction run with
  | done => simp
  | statement current ran spelled rest ih =>
      have kept := ((parseExpression_consumesOnly .lowest).of_ok ran).depth
      have first := (parseExpression_parsesWithinLimit shallow .lowest).height _ _ ran
      have further := ih (Nat.le_trans (Nat.le_of_eq kept) shallow)
      exact List.forall_mem_cons.mpr ⟨first, further⟩
  | failure current ran spelled rest ih =>
      have kept := ((parseExpression_consumesOnly .lowest).of_error ran).depth
      exact ih (Nat.le_trans (Nat.le_of_eq kept) shallow)

/-- A parser between two calls. -/
structure Parser.Idle (parser : Parser) : Prop where
  depth : parser.depth = 0
  inside : .endOfInput ∉ parser.tokens

theorem Parser.Idle.shallow {parser : Parser} (idle : parser.Idle) :
    parser.depth ≤ maxNesting := by
  rw [idle.depth]
  exact Nat.zero_le _

/-- What reading a whole text keeps. It takes turns that read one expression each. -/
structure ReadsWithinLimit (parser : Parser) : Prop where
  turns : ∃ turns, parser.program.2 = parser.afterCalls (List.replicate turns .turn)
  depth : parser.program.2.depth = parser.depth
  heights : ∀ expr ∈ parser.program.1.statements, expr.height ≤ maxNesting

theorem program_readsWithinLimit {parser : Parser} (idle : parser.Idle) :
    ReadsWithinLimit parser := by
  obtain ⟨turns, reads⟩ := program_readsInTurns idle.inside
  refine ⟨⟨turns.length, reads.run.final_eq⟩, reads.depth, ?_⟩
  rw [reads.statements]
  exact reads.run.height_le idle.shallow

private theorem Parser.LeadsTo.idle {parser after : Parser} (leads : parser.LeadsTo after)
    (idle : parser.Idle) : after.Idle :=
  ⟨leads.depth.trans idle.depth, fun member => idle.inside (leads.tokens.mem member)⟩

private theorem Parser.Call.run_idle {parser : Parser} (idle : parser.Idle) (call : Parser.Call) :
    (call.run parser).Idle := by
  cases call with
  | expression threshold => exact (parseExpression_consumesOnly threshold parser).idle idle
  | turn =>
      rw [run, Parser.statement]
      cases ran : parseExpression .lowest parser with
      | ok expr after =>
          have leads := (parseExpression_consumesOnly .lowest).of_ok ran
          exact (leads.trans (.advance after)).idle idle
      | error error after =>
          have leads := (parseExpression_consumesOnly .lowest).of_error ran
          have kept := (leads.trans (.advance after)).idle idle
          exact ⟨kept.depth, kept.inside⟩
  | program =>
      obtain ⟨turns, reads⟩ := program_readsInTurns idle.inside
      exact ⟨reads.depth.trans idle.depth, by simp [run, reads.tokens]⟩

private theorem Parser.afterCalls_idle {parser : Parser} (idle : parser.Idle)
    (calls : List Parser.Call) :
    (parser.afterCalls calls).Idle := by
  induction calls generalizing parser with
  | nil => exact idle
  | cons call calls ih => exact ih (call.run_idle idle)

/-- Whatever a parser of a text has been asked for before, reading keeps the depth and stays within
the limit, in depth and in the height of every tree. -/
theorem parsing_stays_within_limit (source : String) (calls : List Parser.Call) :
    (∀ threshold, ParsesWithinLimit threshold ((Parser.ofSource source).afterCalls calls)) ∧
      ReadsWithinLimit ((Parser.ofSource source).afterCalls calls) := by
  have idle : ((Parser.ofSource source).afterCalls calls).Idle :=
    Parser.afterCalls_idle ⟨rfl, endOfInput_not_mem_tokenize source⟩ calls
  exact ⟨parseExpression_parsesWithinLimit idle.shallow, program_readsWithinLimit idle⟩

end Calculator
