import Calculator.Proofs.Beginning
import Calculator.Proofs.Parser.Soundness

/-!
# Unfinished expressions

The tokens in front of an operand that is still due. They are a chain of expressions, each begun
inside of the one before, and each by a sign, an opening parenthesis, an operator behind its left
operand, or a function with arguments. With any operand in its place such a chain can be completed.
-/

set_option autoImplicit false

namespace Calculator

/-!
## Arguments in front of a further one
-/

def Phrase.listedTokens (arguments : List Phrase) : List Token :=
  arguments.flatMap fun argument => argument.tokens ++ [.comma]

private theorem Phrase.argumentTokens_append (arguments : List Phrase) (last : Phrase) :
    argumentTokens (arguments ++ [last]) = listedTokens arguments ++ last.tokens := by
  induction arguments with
  | nil => simp [argumentTokens, furtherTokens, listedTokens]
  | cons argument arguments ih =>
      have further : furtherTokens (arguments ++ [last]) =
          .comma :: argumentTokens (arguments ++ [last]) := by
        cases arguments <;> rfl
      simp [argumentTokens, further, ih, listedTokens]

/-- Where the next argument of a call is due. -/
def Position.listing (opened : List Bracket) : List Phrase → Position
  | [] => ⟨.argument, .call :: opened⟩
  | _ :: _ => ⟨.operand, .call :: opened⟩

@[simp] theorem Position.opened_listing (opened : List Bracket) (arguments : List Phrase) :
    (listing opened arguments).opened = .call :: opened := by
  cases arguments <;> rfl

private theorem Position.due_listing (opened : List Bracket) (arguments : List Phrase) :
    (listing opened arguments).due ≠ .operator := by
  cases arguments <;> simp [listing]

theorem Position.eq_nil_of_due_listing {opened : List Bracket} {arguments : List Phrase}
    (first : (listing opened arguments).due = .argument) : arguments = [] := by
  cases arguments with
  | nil => rfl
  | cons => cases first

private theorem Position.scan_listedTokens (opened : List Bracket) (arguments : List Phrase) :
    scan ⟨.argument, .call :: opened⟩ (Phrase.listedTokens arguments) =
      some (listing opened arguments) := by
  have further (phrases : List Phrase) : scan ⟨.operand, .call :: opened⟩
      (Phrase.listedTokens phrases) = some ⟨.operand, .call :: opened⟩ := by
    induction phrases with
    | nil => rfl
    | cons phrase phrases ih =>
        have comma : step ⟨.operator, .call :: opened⟩ .comma =
            some ⟨.operand, .call :: opened⟩ := rfl
        simpa [Phrase.listedTokens, scan_tokens, comma] using ih
  cases arguments with
  | nil => rfl
  | cons argument arguments =>
      have comma : step ⟨.operator, .call :: opened⟩ .comma =
          some ⟨.operand, .call :: opened⟩ := rfl
      simpa [Phrase.listedTokens, scan_argument, scan_tokens, comma, listing] using
        further arguments

/-!
## Waiting for an operand
-/

/-- Tokens that leave an expression waiting for an operand. The operand is inside of `depth`
expressions, counted from those that enclose the whole, and is read at the threshold. -/
inductive Awaits (enclosing : Nat) : List Token → Nat → Precedence → Position → Prop where
  | start : Awaits enclosing [] enclosing .lowest .start
  | signed {outer depth threshold position} {sign : Sign} :
      Awaits enclosing outer depth threshold position →
      Awaits enclosing (outer ++ [sign.token]) (depth + 1) .sign ⟨.operand, position.opened⟩
  | group {outer depth threshold position} :
      Awaits enclosing outer depth threshold position →
      Awaits enclosing (outer ++ [.leftParen]) (depth + 1) .lowest
        ⟨.operand, .group :: position.opened⟩
  | right {outer depth threshold position nonterminal left} {operator : Operator} :
      Awaits enclosing outer depth threshold position →
      Derives nonterminal left → Precedence.of operator.token ≤ nonterminal.follow →
      threshold < Precedence.of operator.token →
      Awaits enclosing (outer ++ (left.tokens ++ [operator.token])) (depth + 1)
        operator.rightPrecedence ⟨.operand, position.opened⟩
  | argument {outer depth threshold position function arguments} :
      Awaits enclosing outer depth threshold position →
      Derives .application function → (∀ argument ∈ arguments, Derives .sum argument) →
      threshold < .call →
      Awaits enclosing (outer ++ (function.tokens ++ .leftParen :: Phrase.listedTokens arguments))
        (depth + 1) .lowest (.listing position.opened arguments)

namespace Awaits

variable {enclosing depth : Nat} {outer : List Token} {threshold : Precedence}
variable {position : Position}

theorem due (awaits : Awaits enclosing outer depth threshold position) :
    position.due ≠ .operator := by
  cases awaits with
  | argument => exact Position.due_listing _ _
  | _ => simp [Position.start]

theorem threshold_le_sign (awaits : Awaits enclosing outer depth threshold position) :
    threshold ≤ .sign := by
  cases awaits with
  | @right _ _ _ _ _ _ operator => cases operator <;> decide
  | _ => decide

theorem scan (awaits : Awaits enclosing outer depth threshold position) :
    Position.start.scan outer = some position := by
  induction awaits with
  | start => rfl
  | @signed _ _ _ position sign awaits ih =>
      have begins : sign.token.beginsPhrase = true := by cases sign <;> rfl
      have stepped : Position.beginOperand position.opened sign.token =
          some ⟨.operand, position.opened⟩ := by cases sign <;> rfl
      simp [ih, Position.step_begins awaits.due begins, stepped]
  | @group _ _ _ position awaits ih =>
      have stepped : position.step .leftParen = some ⟨.operand, .group :: position.opened⟩ :=
        Position.step_begins awaits.due rfl
      simp [ih, stepped]
  | right awaits derived drawn binds ih =>
      simp [ih, Position.scan_phrase awaits.due]
  | @argument _ _ _ position _ _ awaits functionDerived derived binds ih =>
      have opening : Position.step ⟨.operator, position.opened⟩ .leftParen =
          some ⟨.argument, .call :: position.opened⟩ := rfl
      simp [ih, Position.scan_phrase awaits.due, opening, Position.scan_listedTokens]

/-- With any operand of its threshold in place, what waits for it can be completed. -/
theorem complete (awaits : Awaits enclosing outer depth threshold position)
    {nonterminal : Nonterminal} {operand : Phrase} (derived : Derives nonterminal operand)
    (reaches : threshold ≤ nonterminal.threshold) :
    ∃ phrase behind, Derives .sum phrase ∧ phrase.tokens = outer ++ operand.tokens ++ behind := by
  induction awaits generalizing nonterminal operand with
  | start => exact ⟨operand, [], derived.toSum, by simp⟩
  | @signed _ _ _ _ sign awaits ih =>
      have unary : Derives .unary operand :=
        derived.loosen (Nonterminal.rank_le_rank reaches (by simp))
      rcases ih unary.signed awaits.threshold_le_sign with ⟨phrase, behind, whole, spelled⟩
      exact ⟨phrase, behind, whole, by simpa [Phrase.tokens] using spelled⟩
  | group awaits ih =>
      rcases ih derived.toSum.group (Precedence.le_call _) with ⟨phrase, behind, whole, spelled⟩
      exact ⟨phrase, .rightParen :: behind, whole, by simpa [Phrase.tokens] using spelled⟩
  | right awaits leftDerived drawn binds ih =>
      rcases ih (leftDerived.binary derived drawn reaches) (Operator.le_threshold_whole binds) with
        ⟨phrase, behind, whole, spelled⟩
      exact ⟨phrase, behind, whole, by simpa [Phrase.tokens] using spelled⟩
  | @argument _ _ _ _ _ arguments awaits functionDerived argumentsDerived binds ih =>
      have all : ∀ argument ∈ arguments ++ [operand], Derives .sum argument := by
        simpa [or_imp, forall_and] using ⟨argumentsDerived, derived.toSum⟩
      rcases ih (functionDerived.call all) (Nat.le_of_lt_succ binds) with
        ⟨phrase, behind, whole, spelled⟩
      exact ⟨phrase, .rightParen :: behind, whole, by
        simpa [Phrase.tokens, Phrase.argumentTokens_append] using spelled⟩

theorem isBeginning_operand (awaits : Awaits enclosing outer depth threshold position)
    {nonterminal : Nonterminal} {operand : Phrase} (derived : Derives nonterminal operand)
    (reaches : threshold ≤ nonterminal.threshold) : IsBeginning (outer ++ operand.tokens) := by
  rcases awaits.complete derived reaches with ⟨phrase, behind, whole, spelled⟩
  exact .of_phrase whole spelled

theorem isBeginning (awaits : Awaits enclosing outer depth threshold position) :
    IsBeginning outer := by
  have number : Derives .primary (.number 0) := .number
  exact (awaits.isBeginning_operand number (Precedence.le_call _)).of_append

end Awaits

end Calculator
