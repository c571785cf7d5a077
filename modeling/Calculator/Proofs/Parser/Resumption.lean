import Calculator.Proofs.Parser.Steps

/-!
# Going on at a looser level

Reading at a loose level first does all that reading at a tighter one does. So it can be interrupted
there and resumed behind the expression read so far, with the same outcome and the same parser at
the end, whether it succeeds or fails. Where it succeeds, nothing is left that binds tighter than
the level.

How many levels of nesting a rule has left never matters once there are enough for the depth of the
parser. With as many as the limit allows, the rule for an expression is its own rule for operands.
-/

set_option autoImplicit false

namespace Calculator

/-!
## Loops that are resumed
-/

section Loops

variable {operand : Precedence → ParserM Node} {loose tight threshold : Precedence}
variable {left node : Node} {parser after : Parser}
variable (consumes : ∀ threshold, ConsumesOnly (operand threshold))
include consumes

/-- What holds in front of a token that does not continue the loop, and holds of a turn if it holds
behind the turn, holds of the whole loop. Each turn uses up at least one token. -/
theorem climb_induction (threshold : Precedence) {motive : Node → Parser → Prop}
    (stop : ∀ left parser, ¬ threshold < Precedence.of parser.lookahead → motive left parser)
    (turn : ∀ left parser, threshold < Precedence.of parser.lookahead →
      (∀ extended middle, parseExtension operand left parser.advance = .ok extended middle →
        motive extended middle) → motive left parser)
    (left : Node) (parser : Parser) : motive left parser := by
  induction length : parser.tokens.length using Nat.strongRecOn generalizing left parser with
  | ind bound ih =>
      by_cases continues : threshold < Precedence.of parser.lookahead
      · refine turn left parser continues fun extended middle ran => ?_
        have shorter := advance_tokens_length_lt continues
        have fewer := ((parseExtension_consumesOnly consumes left).of_ok ran).tokens.length_le
        exact ih middle.tokens.length (by omega) extended middle rfl
      · exact stop left parser continues

/-- As long as the tighter loop goes on, so does the looser one. -/
theorem climb_run_resume (looser : loose ≤ tight) :
    climb operand loose left parser =
      (climb operand tight left >>= climb operand loose) parser := by
  induction left, parser using climb_induction consumes tight with
  | stop left parser stops => exact (bind_run_ok (climb_run_stop stops)).symm
  | turn left parser continues ih =>
      have further : loose < Precedence.of parser.lookahead := Nat.lt_of_le_of_lt looser continues
      have tighter : climb operand tight left parser = _ := climb_run_extend consumes continues
      rw [climb_run_extend consumes further]
      cases ran : parseExtension operand left parser.advance with
      | error error middle =>
          rw [bind_run_error ran] at tighter ⊢
          exact (bind_run_error tighter).symm
      | ok extended middle =>
          rw [bind_run_ok ran] at tighter ⊢
          rw [ih extended middle ran]
          exact (bind_run_congr tighter).symm

/-- A loop ends nowhere but in front of a token that does not continue it. -/
theorem climb_run_ok_stops (ran : climb operand threshold left parser = .ok node after) :
    ¬ threshold < Precedence.of after.lookahead := by
  induction left, parser using climb_induction consumes threshold with
  | stop left parser stops =>
      rw [climb_run_stop stops] at ran
      cases ran
      exact stops
  | turn left parser continues ih =>
      rw [climb_run_extend consumes continues] at ran
      rcases bind_run_ok_components ran with ⟨extended, middle, extension, rest⟩
      exact ih extended middle extension rest

end Loops

/-!
## Levels of nesting
-/

/-- A step that comes to the same as another in every parser of at least some depth. -/
structure AgreesFrom (depth : Nat) {α : Type} (step other : ParserM α) : Prop where
  consumes : ConsumesOnly step
  same : ∀ parser, depth ≤ parser.depth → step parser = other parser

namespace AgreesFrom

variable {depth : Nat} {α β : Type} {step other : ParserM α}

theorem refl (consumes : ConsumesOnly step) : AgreesFrom depth step step :=
  ⟨consumes, fun _ _ => rfl⟩

theorem sequence {next otherNext : α → ParserM β} (first : AgreesFrom depth step other)
    (second : ∀ value, AgreesFrom depth (next value) (otherNext value)) :
    AgreesFrom depth (step >>= next) (other >>= otherNext) where
  consumes := first.consumes.bind fun value => (second value).consumes
  same parser deep := by
    have agreed := (first.same parser deep).symm
    cases ran : step parser with
    | ok value after =>
        have kept := (first.consumes.of_ok ran).depth
        rw [bind_run_ok ran, bind_run_ok (agreed.trans ran)]
        exact (second value).same after (Nat.le_trans deep (Nat.le_of_eq kept.symm))
    | error error after => rw [bind_run_error ran, bind_run_error (agreed.trans ran)]

theorem inside (agrees : AgreesFrom depth step other) :
    AgreesFrom depth (nested step) (nested other) where
  consumes := agrees.consumes.nested
  same parser deep := nested_run_congr (agrees.same parser.descend (Nat.le_succ_of_le deep))

theorem relation : StepRelation (m := ParserM) (n := ParserM) (AgreesFrom depth) where
  value value := .refl (consumesOnly_relation.value value)
  node node := .refl (consumesOnly_relation.node node)
  failure error := .refl (consumesOnly_relation.failure error)
  state := .refl consumesOnly_relation.state
  advance := .refl consumesOnly_relation.advance
  sequence := sequence
  inside := inside

theorem parseClimbing {operand otherOperand : Precedence → ParserM Node}
    (agrees : ∀ threshold, AgreesFrom depth (operand threshold) (otherOperand threshold))
    (threshold : Precedence) :
    AgreesFrom depth (parseClimbing operand threshold) (parseClimbing otherOperand threshold) :=
  relation.onTokens.onWindows.parseClimbing operand otherOperand agrees threshold

end AgreesFrom

/-- Where the levels that are left are enough for the depth, more of them change nothing. -/
theorem parseWithin_agreesFrom (levels more : Nat) (threshold : Precedence) :
    AgreesFrom (maxNesting - levels) (parseWithin levels threshold)
      (parseWithin (levels + more) threshold) := by
  induction levels generalizing threshold with
  | zero =>
      refine ⟨parseWithin_consumesOnly 0 threshold, fun parser deep => ?_⟩
      rw [Nat.zero_add]
      cases more with
      | zero => rfl
      | succ more => exact (nested_run_refused (Nat.not_lt.mpr deep)).symm
  | succ levels ih =>
      refine ⟨parseWithin_consumesOnly (levels + 1) threshold, fun parser deep => ?_⟩
      have inside : maxNesting - levels ≤ parser.descend.depth := by
        simp only [Parser.descend]
        omega
      rw [Nat.add_right_comm]
      exact nested_run_congr ((AgreesFrom.parseClimbing ih threshold).same _ inside)

/-- The rule for an expression is to read one level deeper, with the same rule for the operands. -/
theorem parseWithin_eq_nested (threshold : Precedence) :
    parseWithin maxNesting threshold =
      nested (parseClimbing (parseWithin maxNesting) threshold) := by
  funext parser
  have agrees := AgreesFrom.parseClimbing (parseWithin_agreesFrom 255 1) threshold
  have inside : maxNesting - 255 ≤ parser.descend.depth := Nat.le_add_left 1 parser.depth
  exact nested_run_congr (agrees.same parser.descend inside)

/-!
## Reading at two levels
-/

/-- Reading at a level comes to the same as reading at a tighter one and, if that succeeds, going on
from its expression at the looser level. If it succeeds, the lookahead does not bind tighter than
the level. -/
theorem climbing_resumes (levels : Nat) (parser : Parser) {loose tight : Precedence}
    (looser : loose ≤ tight) :
    parseClimbing (parseWithin levels) loose parser =
        (parseClimbing (parseWithin levels) tight >>= climb (parseWithin levels) loose) parser ∧
      ∀ node after, parseClimbing (parseWithin levels) loose parser = .ok node after →
        Precedence.of after.lookahead ≤ loose := by
  have consumes := parseWithin_consumesOnly levels
  constructor
  · rw [parseClimbing_run]
    cases ran : parsePrimary (parseWithin levels) parser with
    | error error middle =>
        have failed : parseClimbing (parseWithin levels) tight parser = .error error middle :=
          bind_run_error ran
        rw [bind_run_error ran, bind_run_error failed]
    | ok left middle =>
        have begun : parseClimbing (parseWithin levels) tight parser =
            climb (parseWithin levels) tight left middle := bind_run_ok ran
        rw [bind_run_ok ran, climb_run_resume consumes looser]
        exact (bind_run_congr begun).symm
  · intro node after ran
    rcases bind_run_ok_components ran with ⟨left, middle, -, climbed⟩
    exact Nat.not_lt.mp (climb_run_ok_stops consumes climbed)

/-- Reading a sum can be interrupted behind the power that it begins with. -/
theorem climbing_resumes_behind_power :
    Precedence.lowest ≤ .product ∧
      parseClimbing (parseWithin maxNesting) .lowest
          { tokens := tokenize "x ** 3 * 4 + 5 y", depth := 7 } =
        (parseClimbing (parseWithin maxNesting) .product >>=
            climb (parseWithin maxNesting) .lowest)
          { tokens := tokenize "x ** 3 * 4 + 5 y", depth := 7 } ∧
      ∀ node after, parseClimbing (parseWithin maxNesting) .lowest
          { tokens := tokenize "x ** 3 * 4 + 5 y", depth := 7 } = .ok node after →
        Precedence.of after.lookahead ≤ .lowest := by
  have looser : Precedence.lowest ≤ .product := by decide
  exact ⟨looser, climbing_resumes maxNesting _ looser⟩

end Calculator
