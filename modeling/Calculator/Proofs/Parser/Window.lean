import Calculator.Proofs.Parser.Agreement
import Calculator.Proofs.Parser.History

/-!
# What the parser sees

The parser decides by the current token and the lookahead alone. A step that leaves both of them
among its tokens would have come to the same in front of any further tokens. Hence where a text goes
on, only the last of its diagnostics can change: each of the others was recorded in front of a token
at which reading went on.
-/

set_option autoImplicit false

namespace Calculator

/-!
## Tokens behind the last one
-/

/-- The parser with further tokens behind its last one. -/
def Parser.extended (behind : List Token) (parser : Parser) : Parser :=
  { parser with tokens := parser.tokens ++ behind }

namespace Parser

variable {parser : Parser}

private theorem exists_window (long : 2 ≤ parser.tokens.length) :
    ∃ current lookahead rest, parser.tokens = current :: lookahead :: rest := by
  cases first : parser.tokens with
  | nil => simp [first] at long
  | cons current tail =>
      cases second : tail with
      | nil => simp [first, second] at long
      | cons lookahead rest => exact ⟨current, lookahead, rest, rfl⟩

private theorem current_extended (long : 2 ≤ parser.tokens.length) (behind : List Token) :
    (parser.extended behind).current = parser.current := by
  rcases exists_window long with ⟨current, lookahead, rest, shape⟩
  simp [extended, Parser.current, shape]

private theorem lookahead_extended (long : 2 ≤ parser.tokens.length) (behind : List Token) :
    (parser.extended behind).lookahead = parser.lookahead := by
  rcases exists_window long with ⟨current, lookahead, rest, shape⟩
  simp [extended, Parser.lookahead, shape]

theorem advance_extended (nonempty : parser.tokens ≠ []) (behind : List Token) :
    (parser.extended behind).advance = parser.advance.extended behind := by
  rcases List.exists_cons_of_ne_nil nonempty with ⟨current, rest, shape⟩
  simp [extended, advance, shape]

end Parser

/-- A step that comes to the same, whatever follows the last token, if it leaves two tokens. -/
structure Foresees {α : Type} (step : ParserM α) : Prop where
  consumes : ConsumesOnly step
  extended : ∀ parser behind, 2 ≤ (Parser.after step parser).tokens.length →
    step (parser.extended behind) = Parser.mapResult (Parser.extended behind) (step parser)

/-!
## Loops
-/

/-- As for the loop of precedence climbing, a bound that is long enough never ends the loop. -/
theorem parseArgumentsWithin_run_eq {operand : Precedence → ParserM Node}
    (consumes : ∀ threshold, ConsumesOnly (operand threshold)) {bound other : List Token}
    {read : List Expr} {tallest : Nat} {parser : Parser} (nonempty : parser.tokens ≠ [])
    (enough : parser.tokens.length ≤ bound.length)
    (otherEnough : parser.tokens.length ≤ other.length) :
    parseArgumentsWithin operand bound read tallest parser =
      parseArgumentsWithin operand other read tallest parser := by
  have positive := List.length_pos_iff.mpr nonempty
  induction bound generalizing other read tallest parser with
  | nil => exact absurd (Nat.lt_of_lt_of_le positive enough) (Nat.not_lt_zero _)
  | cons token bound ih =>
      cases other with
      | nil => exact absurd (Nat.lt_of_lt_of_le positive otherEnough) (Nat.not_lt_zero _)
      | cons otherToken other =>
          rw [parseArgumentsWithin_run_cons, parseArgumentsWithin_run_cons]
          cases ran : operand .lowest parser.advance with
          | error error after => exact (bind_run_error ran).trans (bind_run_error ran).symm
          | ok argument after =>
              refine (bind_run_ok ran).trans (Eq.trans ?_ (bind_run_ok ran).symm)
              have fewer : after.tokens.length ≤ parser.tokens.length - 1 := by
                simpa [Parser.advance] using ((consumes .lowest).of_ok ran).tokens.length_le
              cases next : after.lookahead with
              | comma =>
                  have left : after.advance.tokens ≠ [] := by
                    intro ended
                    have ended : after.lookahead = .endOfInput :=
                      congrArg (List.headD · Token.endOfInput) ended
                    cases next.symm.trans ended
                  have shorter : after.advance.tokens.length ≤ after.tokens.length := by
                    simp [Parser.advance]
                  simp only [List.length_cons] at enough otherEnough
                  exact ih left (by omega) (by omega) (List.length_pos_iff.mpr left)
              | _ => rfl

namespace Foresees

variable {α β : Type} {step : ParserM α}

private theorem long_of_after (foresees : Foresees step) {parser : Parser}
    (long : 2 ≤ (Parser.after step parser).tokens.length) : 2 ≤ parser.tokens.length :=
  Nat.le_trans long (foresees.consumes parser).tokens.length_le

theorem look {next : Parser → ParserM α}
    (window : ∀ parser other, parser.current = other.current →
      parser.lookahead = other.lookahead → next parser = next other)
    (further : ∀ parser, Foresees (next parser)) : Foresees (get >>= next) where
  consumes := consumesOnly_relation.state.bind fun parser => (further parser).consumes
  extended parser behind long := by
    have before := (further parser).long_of_after long
    have same : next (parser.extended behind) = next parser :=
      window _ _ (Parser.current_extended before behind) (Parser.lookahead_extended before behind)
    rw [get_bind_run, get_bind_run, same]
    exact (further parser).extended parser behind long

theorem advance : Foresees (modify Parser.advance) where
  consumes := consumesOnly_relation.advance
  extended parser behind long := by
    have further : 2 ≤ parser.advance.tokens.length := long
    have nonempty : parser.tokens ≠ [] := by
      intro ended
      simp [Parser.advance, ended] at further
    exact congrArg (EStateM.Result.ok ()) (Parser.advance_extended nonempty behind)

theorem sequence {next : α → ParserM β} (first : Foresees step)
    (second : ∀ value, Foresees (next value)) : Foresees (step >>= next) where
  consumes := first.consumes.bind fun value => (second value).consumes
  extended parser behind long := by
    have same := first.extended parser behind
    cases ran : step parser with
    | ok value middle =>
        simp only [Parser.after, bind_run_ok ran] at long
        simp only [Parser.after, ran] at same
        rw [bind_run_ok (same ((second value).long_of_after long)), bind_run_ok ran]
        exact (second value).extended middle behind long
    | error error middle =>
        simp only [Parser.after, bind_run_error ran] at long
        simp only [Parser.after, ran] at same
        rw [bind_run_error (same long), bind_run_error ran]
        rfl

theorem inside (inner : Foresees step) : Foresees (nested step) where
  consumes := inner.consumes.nested
  extended parser behind long := by
    have same := inner.extended parser.descend behind
    by_cases shallow : parser.depth < maxNesting
    · have alike : (parser.extended behind).depth < maxNesting := shallow
      cases ran : step parser.descend with
      | ok value after =>
          simp only [Parser.after, nested_run_ok shallow ran] at long
          simp only [Parser.after, ran] at same
          rw [nested_run_ok alike (same long), nested_run_ok shallow ran]
          rfl
      | error error after =>
          simp only [Parser.after, nested_run_error shallow ran] at long
          simp only [Parser.after, ran] at same
          rw [nested_run_error alike (same long), nested_run_error shallow ran]
          rfl
    · have alike : ¬ (parser.extended behind).depth < maxNesting := shallow
      rw [nested_run_refused alike, nested_run_refused shallow]
      rfl

/-- A loop that is bounded by the tokens has a longer bound in front of further tokens, and comes to
the same under that bound. -/
theorem bounded {loop : List Token → ParserM α} (foresees : ∀ bound, Foresees (loop bound))
    (same : ∀ parser behind, parser.tokens ≠ [] →
      loop (parser.tokens ++ behind) parser = loop parser.tokens parser) :
    Foresees (get >>= fun parser => loop parser.tokens) where
  consumes := consumesOnly_relation.state.bind fun parser => (foresees parser.tokens).consumes
  extended parser behind long := by
    have before := (foresees parser.tokens).long_of_after long
    have nonempty : parser.tokens ≠ [] := by
      intro ended
      simp [ended] at before
    have longer := (foresees (parser.tokens ++ behind)).extended parser behind
    rw [Parser.after, same parser behind nonempty] at longer
    exact longer long

theorem relation :
    WindowRelation (m := ParserM) (n := ParserM) fun step _ => Foresees step where
  value value := ⟨consumesOnly_relation.value value, fun _ _ _ => rfl⟩
  node node := ⟨consumesOnly_relation.node node, fun _ _ _ => rfl⟩
  failure error := ⟨consumesOnly_relation.failure error, fun _ _ _ => rfl⟩
  look window _ := look window
  advance := advance
  sequence := sequence
  inside := inside
  climbing operands foresees := bounded foresees fun _ _ _ =>
    climbWithin_run_eq (fun threshold => (operands threshold).consumes) (by simp) (Nat.le_refl _)
  listing operands foresees := bounded foresees fun _ _ nonempty =>
    bind_run_congr (parseArgumentsWithin_run_eq (fun threshold => (operands threshold).consumes)
      nonempty (by simp) (Nat.le_refl _))

end Foresees

theorem parseExpression_foresees (threshold : Precedence) :
    Foresees (parseExpression threshold) :=
  (Foresees.relation.parseNode maxNesting threshold).sequence fun _ => Foresees.relation.value _

section Reading

variable {threshold : Precedence} {parser after : Parser}

private theorem parseExpression_extended_ok {expr : Expr}
    (ran : parseExpression threshold parser = .ok expr after) (long : 2 ≤ after.tokens.length)
    (behind : List Token) :
    parseExpression threshold (parser.extended behind) = .ok expr (after.extended behind) := by
  have same := (parseExpression_foresees threshold).extended parser behind
  simp only [Parser.after, ran] at same
  exact same long

private theorem parseExpression_extended_error {error : ParseError}
    (ran : parseExpression threshold parser = .error error after)
    (long : 2 ≤ after.tokens.length) (behind : List Token) :
    parseExpression threshold (parser.extended behind) = .error error (after.extended behind) := by
  have same := (parseExpression_foresees threshold).extended parser behind
  simp only [Parser.after, ran] at same
  exact same long

end Reading

/-!
## Turns
-/

namespace Turns

variable {parser final : Parser} {turns : List Turn}

private theorem tokens_ne_nil (run : Turns parser turns final) (nonempty : turns ≠ []) :
    parser.tokens ≠ [] :=
  fun ended => nonempty (run.eq_nil ended)

/-- A turn behind which another one follows has left both of the tokens that the parser sees. -/
theorem long_of_further {after : Parser} (further : Turns after.advance turns final)
    (nonempty : turns ≠ []) : 2 ≤ after.tokens.length := by
  have left := List.length_pos_iff.mpr (further.tokens_ne_nil nonempty)
  simp only [Parser.advance, List.length_tail] at left
  omega

private theorem current_extended (run : Turns parser turns final) (nonempty : turns ≠ [])
    (behind : List Token) : (parser.extended behind).current = parser.current := by
  rcases List.exists_cons_of_ne_nil (run.tokens_ne_nil nonempty) with ⟨token, rest, shape⟩
  simp [Parser.extended, Parser.current, shape]

private theorem uncons_statement (run : Turns parser turns final) {expr : Expr} {after : Parser}
    (current : parser.current ≠ .endOfInput)
    (ran : parseExpression .lowest parser = .ok expr after) :
    ∃ segment further, turns = ⟨segment, .ok expr⟩ :: further ∧
      parser.tokens = segment ++ after.advance.tokens ∧ Turns after.advance further final := by
  cases run with
  | done ended => exact absurd ended current
  | statement _ again cut further =>
      cases ran.symm.trans again
      exact ⟨_, _, rfl, cut, further⟩
  | failure _ again => cases ran.symm.trans again

private theorem uncons_failure (run : Turns parser turns final) {error : ParseError}
    {after : Parser} (current : parser.current ≠ .endOfInput)
    (ran : parseExpression .lowest parser = .error error after) :
    ∃ segment further, turns = ⟨segment, .error error⟩ :: further ∧
      parser.tokens = segment ++ after.advance.tokens ∧
        Turns (after.record error).advance further final := by
  cases run with
  | done ended => exact absurd ended current
  | statement _ again => cases ran.symm.trans again
  | failure _ again cut further =>
      cases ran.symm.trans again
      exact ⟨_, _, rfl, cut, further⟩

private theorem segment_eq_of_extended {tokens segment other rest behind : List Token}
    (cut : tokens = segment ++ rest) (extended : tokens ++ behind = other ++ (rest ++ behind)) :
    other = segment := by
  rw [cut, List.append_assoc] at extended
  exact (List.append_cancel_right extended).symm

/-- In front of further tokens, all turns but the last one are what they are without them. -/
theorem dropLast_isPrefix (run : Turns parser turns final) {behind : List Token}
    {others : List Turn} {otherFinal : Parser}
    (extended : Turns (parser.extended behind) others otherFinal) : turns.dropLast <+: others := by
  induction run generalizing others with
  | done => exact List.nil_prefix
  | @statement parser after final segment expr turns current ran cut further ih =>
      by_cases last : turns = []
      · simp [last]
      have long := further.long_of_further last
      have nonempty : after.tokens ≠ [] :=
        List.ne_nil_of_length_pos (Nat.lt_of_lt_of_le (by simp) long)
      have inside := current_extended (.statement current ran cut further) (by simp) behind
      rcases extended.uncons_statement (inside ▸ current)
        (parseExpression_extended_ok ran long behind) with
        ⟨otherSegment, otherTurns, shape, otherCut, otherFurther⟩
      rw [Parser.advance_extended nonempty] at otherCut otherFurther
      rw [shape, segment_eq_of_extended cut otherCut, List.dropLast_cons_of_ne_nil last]
      exact (List.prefix_cons_inj _).mpr (ih otherFurther)
  | @failure parser after final segment error turns current ran cut further ih =>
      by_cases last : turns = []
      · simp [last]
      have long : 2 ≤ after.tokens.length := further.long_of_further last
      have nonempty : after.tokens ≠ [] :=
        List.ne_nil_of_length_pos (Nat.lt_of_lt_of_le (by simp) long)
      have kept : (after.record error).tokens ≠ [] := nonempty
      have inside := current_extended (.failure current ran cut further) (by simp) behind
      rcases extended.uncons_failure (inside ▸ current)
        (parseExpression_extended_error ran long behind) with
        ⟨otherSegment, otherTurns, shape, otherCut, otherFurther⟩
      have recorded : ((after.extended behind).record error).advance =
          (after.record error).advance.extended behind := Parser.advance_extended kept behind
      rw [Parser.advance_extended nonempty] at otherCut
      rw [recorded] at otherFurther
      rw [shape, segment_eq_of_extended cut otherCut, List.dropLast_cons_of_ne_nil last]
      exact (List.prefix_cons_inj _).mpr (ih otherFurther)

end Turns

/-!
## Texts that go on
-/

private theorem dropLast_filterMap_isPrefix {α β : Type} (f : α → Option β) (values : List α) :
    (values.filterMap f).dropLast <+: values.dropLast.filterMap f := by
  rcases values.eq_nil_or_concat with empty | ⟨front, last, shape⟩
  · simp [empty]
  · subst shape
    cases result : f last with
    | none => simpa [List.filterMap_append, result] using List.dropLast_prefix _
    | some value => simp [List.filterMap_append, result]

section Extension

variable {front blanks back : String} (nonempty : blanks ≠ "")
variable (blank : ∀ c ∈ blanks.toList, isBlank c = true)
include nonempty blank

theorem dropLast_diagnostics_isPrefix :
    (diagnostics front).dropLast <+: diagnostics (front ++ blanks ++ back) := by
  rcases exists_turns_diagnostics front with ⟨turns, final, run, -, errors⟩
  rcases exists_turns_diagnostics (front ++ blanks ++ back) with
    ⟨others, otherFinal, otherRun, -, otherErrors⟩
  have spelled : Parser.ofSource (front ++ blanks ++ back) =
      (Parser.ofSource front).extended (tokenize back) := by
    simp [Parser.ofSource, Parser.extended, tokenize_append nonempty blank]
  rw [spelled] at otherRun
  rw [errors, otherErrors]
  exact (dropLast_filterMap_isPrefix _ _).trans
    ((run.dropLast_isPrefix otherRun).filterMap _)

/-- Whatever follows a text behind blanks, all diagnostics of the text but the last one remain the
first diagnostics of the whole. A text with two of them is refused however it goes on. -/
theorem earlier_diagnostics_remain :
    (∀ errors last, diagnostics front = errors ++ [last] →
      errors <+: diagnostics (front ++ blanks ++ back)) ∧
    (2 ≤ (diagnostics front).length → ∃ errors,
      parse (front ++ blanks ++ back) = .error errors) := by
  have remain : (diagnostics front).dropLast <+: diagnostics (front ++ blanks ++ back) :=
    dropLast_diagnostics_isPrefix nonempty blank
  refine ⟨?_, fun several => ⟨_, parse_of_diagnostics ?_⟩⟩
  · intro errors last recorded
    simpa [recorded] using remain
  · intro empty
    have length := remain.length_le
    simp only [empty, List.length_dropLast, List.length_nil] at length
    omega

end Extension

theorem earlier_diagnostics_remain_behind_comma :
    diagnostics "f(1,) (2" = [.noExpression ")", .unexpected ")" "EOF"] ∧
      [.noExpression ")"] <+: diagnostics ("f(1,) (2" ++ "\n" ++ ")") ∧
      ∃ errors, parse ("f(1,) (2" ++ "\n" ++ ")") = .error errors := by
  have recorded : diagnostics "f(1,) (2" = [.noExpression ")", .unexpected ")" "EOF"] := by
    decide +kernel
  have nonempty : "\n" ≠ "" := by decide
  have blank : ∀ c ∈ "\n".toList, isBlank c = true :=
    List.forall_mem_singleton.mpr rfl
  have several : 2 ≤ (diagnostics "f(1,) (2").length := Nat.le_of_eq (by rw [recorded]; rfl)
  rcases earlier_diagnostics_remain nonempty blank with ⟨remain, refused⟩
  exact ⟨recorded, remain [.noExpression ")"] _ recorded, refused several⟩

end Calculator
