import Calculator.Proofs.Parser.Agreement
import Calculator.Proofs.Parser.Failure
import Mathlib.Data.List.Basic
import Mathlib.Data.List.Flatten

/-!
# Illegal tokens

No expression has an illegal token, so a turn that comes to one ends with it. The turn reports the
token, unless the operand that is due there has been refused for its depth. Turns cut the tokens of a
text without gaps, so that illegal tokens are neither passed over nor reported twice.
-/

set_option autoImplicit false

namespace Calculator

def Token.illegalText? : Token → Option String
  | .illegal text => some text
  | _ => none

def ParseError.illegalText? : ParseError → Option String
  | .illegal text => some text
  | _ => none

private theorem Token.illegalText?_eq_none {token : Token} (other : ∀ text, token ≠ .illegal text) :
    token.illegalText? = none := by
  cases token with
  | illegal text => exact absurd rfl (other text)
  | _ => rfl

private theorem filterMap_illegalText?_eq_nil {tokens : List Token}
    (clean : ∀ text, .illegal text ∉ tokens) :
    tokens.filterMap Token.illegalText? = [] :=
  List.filterMap_eq_nil_iff.mpr fun _ member =>
    Token.illegalText?_eq_none fun text same => clean text (same ▸ member)

private theorem ParseError.illegalText?_eq_none {error : ParseError}
    (other : ∀ text, error ≠ .illegal text) :
    error.illegalText? = none := by
  cases error with
  | illegal text => exact absurd rfl (other text)
  | _ => rfl

/-!
## One turn
-/

/-- What a turn comes to by its illegal tokens. -/
inductive Turn.Reports : Turn → Prop where
  | clean {segment outcome} : (∀ text, .illegal text ∉ segment) →
      (∀ text, outcome ≠ .error (.illegal text)) → Reports ⟨segment, outcome⟩
  | reported {front text} : (∀ other, .illegal other ∉ front) →
      Reports ⟨front ++ [.illegal text], .error (.illegal text)⟩
  | refused {front text depth threshold position} : (∀ other, .illegal other ∉ front) →
      Awaits 0 front depth threshold position → maxNesting ≤ depth →
      Reports ⟨front ++ [.illegal text], .error (.tooDeep maxNesting)⟩

/-- A turn ends with an illegal token. It reports the token, or else the operand that is due there is
inside of as many expressions as there may be. -/
structure Turn.EndsAt (turn : Turn) (front : List Token) (text : String) : Prop where
  segment : turn.segment = front ++ [.illegal text]
  outcome : turn.outcome = .error (.illegal text) ∨
    turn.outcome = .error (.tooDeep maxNesting) ∧
      ∃ depth threshold position, Awaits 0 front depth threshold position ∧ maxNesting ≤ depth

private theorem Token.refusal_ne_illegal {token : Token} (other : ∀ text, token ≠ .illegal text)
    (text : String) : token.refusal ≠ .illegal text := by
  cases token with
  | illegal text => exact absurd rfl (other text)
  | _ => simp [refusal]

theorem Earliest.isBeginning {front : List Token} {current lookahead : Token} {error : ParseError}
    (earliest : Earliest front current lookahead error) : IsBeginning front := by
  cases earliest with
  | refused begins => exact begins
  | unexpected begins => exact begins.of_append
  | tooDeep begins => exact begins

private theorem Earliest.ne_illegal {front : List Token} {current lookahead : Token}
    {error : ParseError}
    (earliest : Earliest front current lookahead error) (other : ∀ text, current ≠ .illegal text)
    (text : String) : error ≠ .illegal text := by
  cases earliest with
  | refused => exact Token.refusal_ne_illegal other text
  | _ => simp

/-- An illegal token at which reading stops does not end a phrase, so it stands where an operand is
due. -/
theorem Stops.reports {front : List Token} {text : String} {lookahead : Token} {error : ParseError}
    (stops : Stops 0 front (.illegal text) lookahead error) :
    Turn.Reports ⟨front ++ [.illegal text], .error error⟩ := by
  have clean (other : String) := stops.earliest.isBeginning.not_illegal other
  cases stops with
  | refused awaits deep => exact .refused clean awaits deep
  | noOperand => exact .reported clean
  | unclosed awaits _ derived reaches ends | tooTall awaits derived reaches ends =>
      have begins := awaits.isBeginning_operand derived reaches
      rw [ends] at begins
      exact absurd (by simp) (begins.not_illegal text)

private theorem FailsBehind.reports {parser after : Parser} {segment : List Token}
    {error : ParseError} (fails : FailsBehind 0 [] parser after error)
    (cut : parser.tokens = segment ++ after.advance.tokens) :
    Turn.Reports ⟨segment, .error error⟩ := by
  rcases fails with ⟨front, spelled, stops⟩
  have whole : segment = front ++ after.tokens.take 1 := by
    have tokens : after.tokens = after.tokens.take 1 ++ after.advance.tokens := by
      rw [Parser.advance, ← List.drop_one, List.take_append_drop]
    rw [cut, tokens, ← List.append_assoc] at spelled
    exact List.append_cancel_right spelled
  subst whole
  by_cases illegal : ∃ text, after.current = .illegal text
  · rcases illegal with ⟨text, current⟩
    rcases Parser.eq_cons_of_current current (by simp) with ⟨rest, shape⟩
    rw [current] at stops
    simpa [shape] using stops.reports
  · have other (text : String) : after.current ≠ .illegal text := fun same => illegal ⟨text, same⟩
    refine .clean (fun text member => ?_) fun text same => ?_
    · rcases List.mem_append.mp member with earlier | last
      · exact stops.earliest.isBeginning.not_illegal text earlier
      · cases shape : after.tokens with
        | nil => simp [shape] at last
        | cons token rest =>
            have same : .illegal text = token := by simpa [shape] using last
            exact other text ((Parser.current_eq shape).trans same.symm)
    · exact stops.earliest.ne_illegal other text (Except.error.inj same)

theorem Turns.reports {parser final : Parser} {turns : List Turn} (run : Turns parser turns final)
    (resting : parser.depth = 0) : ∀ turn ∈ turns, turn.Reports := by
  induction run with
  | done => simp
  | @statement parser after _ segment expr _ current ran cut further ih =>
      have leads := (parseExpression_consumesOnly .lowest).of_ok ran
      rcases parseExpression_eq_ok_iff.mp ran with
        ⟨phrase, rest, derived, spelled, -, -, -, shape⟩
      have whole : segment = phrase.tokens := by
        rw [spelled, shape] at cut
        exact (List.append_cancel_right cut).symm
      have begins : IsBeginning phrase.tokens := ⟨phrase, derived, List.prefix_rfl⟩
      refine List.forall_mem_cons.mpr ⟨.clean ?_ (by simp), ih (leads.depth.trans resting)⟩
      rw [whole]
      exact begins.not_illegal
  | failure current ran cut further ih =>
      have leads := (parseExpression_consumesOnly .lowest).of_error ran
      have fails := parseExpression_fails ran
      rw [resting] at fails
      exact List.forall_mem_cons.mpr ⟨fails.reports cut, ih (leads.depth.trans resting)⟩

private theorem append_illegal_inj {front other back : List Token} {last : Token} {text : String}
    (clean : .illegal text ∉ front) (whole : front ++ [last] = other ++ .illegal text :: back) :
    front = other ∧ last = .illegal text := by
  rcases List.append_eq_append_iff.mp whole with ⟨middle, shape, rest⟩ | ⟨middle, shape, rest⟩
  · cases middle with
    | nil => exact ⟨by simpa using shape.symm, (List.cons.inj rest).1⟩
    | cons => simp at rest
  · cases middle with
    | nil => exact ⟨by simpa using shape, (List.cons.inj rest).1.symm⟩
    | cons token middle =>
        rw [shape, ← (List.cons.inj rest).1] at clean
        simp at clean

namespace Turn.Reports

variable {turn : Turn}

theorem sublist (reports : turn.Reports) :
    (turn.error?.toList.filterMap ParseError.illegalText?).Sublist
      (turn.segment.filterMap Token.illegalText?) := by
  cases reports with
  | @clean segment outcome clean other =>
      cases outcome with
      | ok expr => simp
      | error error =>
          have legal : error.illegalText? = none :=
            ParseError.illegalText?_eq_none fun text same => other text (congrArg _ same)
          simp [legal]
  | reported clean =>
      simp [filterMap_illegalText?_eq_nil clean, ParseError.illegalText?, Token.illegalText?]
  | refused => simp [List.filterMap_cons, ParseError.illegalText?]

private theorem eq_of_not_tooDeep (reports : turn.Reports)
    (shallow : ∀ limit, turn.outcome ≠ .error (.tooDeep limit)) :
    turn.error?.toList.filterMap ParseError.illegalText? =
      turn.segment.filterMap Token.illegalText? := by
  have whole := reports.sublist
  cases reports with
  | clean clean =>
      rw [filterMap_illegalText?_eq_nil clean] at whole ⊢
      exact List.sublist_nil.mp whole
  | reported clean =>
      simp [filterMap_illegalText?_eq_nil clean, ParseError.illegalText?, Token.illegalText?]
  | refused => exact absurd rfl (shallow maxNesting)

private theorem endsAt (reports : turn.Reports) {front back : List Token} {text : String}
    (spelled : turn.segment = front ++ .illegal text :: back) : turn.EndsAt front text := by
  cases reports with
  | @clean segment outcome clean =>
      have member : .illegal text ∈ segment := by
        rw [show segment = front ++ .illegal text :: back from spelled]
        simp
      exact absurd member (clean text)
  | reported clean =>
      rcases append_illegal_inj (clean text) spelled with ⟨same, last⟩
      cases last
      exact ⟨by rw [same], .inl rfl⟩
  | refused clean awaits deep =>
      rcases append_illegal_inj (clean text) spelled with ⟨same, last⟩
      cases last
      exact ⟨by rw [same], .inr ⟨rfl, _, _, _, same ▸ awaits, deep⟩⟩

end Turn.Reports

/-!
## A whole text
-/

section Texts

variable {turns : List Turn}

private theorem filterMap_errors (turns : List Turn) :
    (turns.filterMap Turn.error?).filterMap ParseError.illegalText? =
      turns.flatMap fun turn => turn.error?.toList.filterMap ParseError.illegalText? := by
  rw [List.filterMap_eq_flatMap_toList Turn.error?, List.flatMap, List.filterMap_flatten,
    List.map_map]
  rfl

private theorem filterMap_segments (turns : List Turn) :
    (turns.flatMap Turn.segment).filterMap Token.illegalText? =
      turns.flatMap fun turn => turn.segment.filterMap Token.illegalText? := by
  rw [List.flatMap, List.filterMap_flatten, List.map_map]
  rfl

variable (reports : ∀ turn ∈ turns, turn.Reports)
include reports

theorem reported_sublist :
    ((turns.filterMap Turn.error?).filterMap ParseError.illegalText?).Sublist
      ((turns.flatMap Turn.segment).filterMap Token.illegalText?) := by
  rw [filterMap_errors, filterMap_segments]
  exact List.Sublist.flatMap_right turns fun turn member => (reports turn member).sublist

theorem reported_eq
    (shallow : ∀ turn ∈ turns, ∀ limit, turn.outcome ≠ .error (.tooDeep limit)) :
    (turns.filterMap Turn.error?).filterMap ParseError.illegalText? =
      (turns.flatMap Turn.segment).filterMap Token.illegalText? := by
  rw [filterMap_errors, filterMap_segments]
  exact List.flatMap_congr fun turn member =>
    (reports turn member).eq_of_not_tooDeep (shallow turn member)

private theorem exists_endsAt {before behind : List Token} {text : String}
    (whole : turns.flatMap Turn.segment = before ++ .illegal text :: behind) :
    ∃ earlier turn later front, turns = earlier ++ turn :: later ∧
      before = earlier.flatMap Turn.segment ++ front ∧ turn.EndsAt front text := by
  induction turns generalizing before with
  | nil => simp at whole
  | cons turn turns ih =>
      rcases List.forall_mem_cons.mp reports with ⟨first, rest⟩
      rw [List.flatMap_cons] at whole
      rcases List.append_eq_append_iff.mp whole with ⟨front, cut, spelled⟩ | ⟨back, cut, spelled⟩
      · rcases ih rest spelled with ⟨earlier, last, later, inner, shape, inside, ends⟩
        exact ⟨turn :: earlier, last, later, inner, by simp [shape], by simp [cut, inside], ends⟩
      · cases back with
        | nil =>
            have next : turns.flatMap Turn.segment = [] ++ .illegal text :: behind := spelled.symm
            rcases ih rest next with ⟨earlier, last, later, inner, shape, inside, ends⟩
            exact ⟨turn :: earlier, last, later, inner, by simp [shape], by
              simpa [← inside] using cut.symm, ends⟩
        | cons token back =>
            rw [← (List.cons.inj spelled).1] at cut
            exact ⟨[], turn, turns, before, rfl, rfl, first.endsAt cut⟩

end Texts

/-- Without an expression that goes over the limit, the illegal tokens of a text are reported one by
one and in order. In any case none is reported that is not there, and one that is not reported ends
a turn whose operand has been refused for its depth. -/
theorem illegal_tokens_are_reported (source : String) :
    ((∀ limit, .tooDeep limit ∉ diagnostics source) →
      (diagnostics source).filterMap ParseError.illegalText? =
        (tokenize source).filterMap Token.illegalText?) ∧
    ((diagnostics source).filterMap ParseError.illegalText?).Sublist
      ((tokenize source).filterMap Token.illegalText?) ∧
    ∃ turns final, Turns (Parser.ofSource source) turns final ∧
      turns.flatMap Turn.segment = tokenize source ∧
      diagnostics source = turns.filterMap Turn.error? ∧
      ∀ before text behind, tokenize source = before ++ .illegal text :: behind →
        ∃ earlier turn later front, turns = earlier ++ turn :: later ∧
          before = earlier.flatMap Turn.segment ++ front ∧ turn.EndsAt front text := by
  rcases exists_turns_diagnostics source with ⟨turns, final, run, segments, errors⟩
  have reports := run.reports rfl
  refine ⟨fun shallow => ?_, ?_, turns, final, run, segments, errors, ?_⟩
  · rw [errors, ← segments]
    refine reported_eq reports fun turn member limit same => shallow limit ?_
    rw [errors]
    exact List.mem_filterMap.mpr ⟨turn, member, by simp [Turn.error?, same]⟩
  · rw [errors, ← segments]
    exact reported_sublist reports
  · intro before text behind spelled
    exact exists_endsAt reports (segments.trans spelled)

end Calculator
