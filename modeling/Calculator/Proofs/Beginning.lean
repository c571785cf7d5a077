import Calculator.Proofs.Grammar

/-!
# How expressions begin

With which tokens an expression can begin, as far as one sees from left to right. A position is what
the tokens so far leave due, together with the parentheses that they leave open. The tokens of a
phrase lead from where an operand is due to where an operator is due, so tokens that lead nowhere
begin no expression.
-/

set_option autoImplicit false

namespace Calculator

/-- Tokens with which some expression begins. -/
def IsBeginning (tokens : List Token) : Prop :=
  ∃ phrase, Derives .sum phrase ∧ tokens <+: phrase.tokens

/-- What an open parenthesis holds. -/
inductive Bracket where
  | group
  | call
deriving DecidableEq

inductive Due where
  | operand
  /-- The first argument of a call, or the end of its arguments. -/
  | argument
  /-- Whatever extends or ends the operand before it. -/
  | operator
deriving DecidableEq

/-- What is due behind some tokens, and the parentheses that are open there, the last one first. -/
structure Position where
  due : Due
  opened : List Bracket

namespace Position

def start : Position :=
  { due := .operand, opened := [] }

def beginOperand (opened : List Bracket) : Token → Option Position
  | .number _ | .identifier _ => some ⟨.operator, opened⟩
  | .plus | .minus => some ⟨.operand, opened⟩
  | .leftParen => some ⟨.operand, .group :: opened⟩
  | _ => none

def goOn (opened : List Bracket) : Token → Option Position
  | .plus | .minus | .star | .slash | .starStar => some ⟨.operand, opened⟩
  | .leftParen => some ⟨.argument, .call :: opened⟩
  | .rightParen =>
      match opened with
      | [] => none
      | _ :: outer => some ⟨.operator, outer⟩
  | .comma =>
      match opened with
      | .call :: _ => some ⟨.operand, opened⟩
      | _ => none
  | _ => none

/-- The position behind one more token, unless no expression has this token here. -/
def step (position : Position) (token : Token) : Option Position :=
  match position.due with
  | .operand => beginOperand position.opened token
  | .operator => goOn position.opened token
  | .argument =>
      match token with
      | .rightParen => goOn position.opened .rightParen
      | _ => beginOperand position.opened token

def scan (position : Position) : List Token → Option Position
  | [] => some position
  | token :: tokens => (position.step token).bind fun next => next.scan tokens

@[simp] theorem scan_nil (position : Position) : position.scan [] = some position := rfl

@[simp] theorem scan_cons (position : Position) (token : Token) (tokens : List Token) :
    position.scan (token :: tokens) = (position.step token).bind fun next => next.scan tokens := rfl

@[simp] theorem scan_append (position : Position) (front back : List Token) :
    position.scan (front ++ back) = (position.scan front).bind fun next => next.scan back := by
  induction front generalizing position with
  | nil => rfl
  | cons token front ih => simp [ih, Option.bind_assoc]

variable {opened : List Bracket}

/-!
## Phrases
-/

@[simp] theorem step_sign (sign : Sign) :
    step ⟨.operand, opened⟩ sign.token = some ⟨.operand, opened⟩ := by
  cases sign <;> rfl

@[simp] theorem step_operator (operator : Operator) :
    step ⟨.operator, opened⟩ operator.token = some ⟨.operand, opened⟩ := by
  cases operator <;> rfl

/-- Where a first argument is due, a phrase begins as any operand does. -/
theorem step_begins {position : Position} (expects : position.due ≠ .operator) {token : Token}
    (begins : token.beginsPhrase = true) :
    position.step token = beginOperand position.opened token := by
  rcases position with ⟨due, opened⟩
  cases due with
  | operand => rfl
  | argument =>
      cases token with
      | rightParen => cases begins
      | _ => rfl
  | operator => exact absurd rfl expects

theorem scan_argument (phrase : Phrase) :
    scan ⟨.argument, opened⟩ phrase.tokens = scan ⟨.operand, opened⟩ phrase.tokens := by
  rcases phrase.tokens_eq_cons with ⟨token, tail, spelled, begins⟩
  have first : step ⟨.argument, opened⟩ token = step ⟨.operand, opened⟩ token :=
    step_begins (by simp) begins
  simp only [spelled, scan_cons, first]

mutual

theorem scan_tokens : (phrase : Phrase) → (opened : List Bracket) →
    scan ⟨.operand, opened⟩ phrase.tokens = some ⟨.operator, opened⟩
  | .number _, _ => rfl
  | .identifier _, _ => rfl
  | .group inner, opened => by
      have read := scan_tokens inner (.group :: opened)
      have opening : step ⟨.operand, opened⟩ .leftParen = some ⟨.operand, .group :: opened⟩ := rfl
      simp only [Phrase.tokens, scan_cons, scan_append, opening, read, Option.bind_some]
      rfl
  | .signed sign operand, opened => by
      have read := scan_tokens operand opened
      simp only [Phrase.tokens, scan_cons, step_sign, read, Option.bind_some]
  | .binary left operator right, opened => by
      have readLeft := scan_tokens left opened
      have readRight := scan_tokens right opened
      simp only [Phrase.tokens, scan_cons, scan_append, step_operator, readLeft, readRight,
        Option.bind_some]
  | .call function [], opened => by
      have read := scan_tokens function opened
      simp only [Phrase.tokens, Phrase.argumentTokens, scan_append, read, Option.bind_some]
      rfl
  | .call function (argument :: arguments), opened => by
      have read := scan_tokens function opened
      have readFirst := scan_tokens argument (.call :: opened)
      have readRest := scan_furtherTokens arguments opened
      have opening : step ⟨.operator, opened⟩ .leftParen = some ⟨.argument, .call :: opened⟩ := rfl
      simp only [Phrase.tokens, Phrase.argumentTokens, List.append_assoc, scan_append, scan_cons,
        read, opening, scan_argument, readFirst, readRest, Option.bind_some]
      rfl

theorem scan_furtherTokens : (arguments : List Phrase) → (opened : List Bracket) →
    scan ⟨.operator, .call :: opened⟩ (Phrase.furtherTokens arguments) =
      some ⟨.operator, .call :: opened⟩
  | [], _ => rfl
  | argument :: arguments, opened => by
      have read := scan_tokens argument (.call :: opened)
      have readRest := scan_furtherTokens arguments opened
      have comma : step ⟨.operator, .call :: opened⟩ .comma = some ⟨.operand, .call :: opened⟩ := rfl
      simp only [Phrase.furtherTokens, scan_cons, scan_append, comma, read, readRest,
        Option.bind_some]

end

theorem scan_phrase {position : Position} (expects : position.due ≠ .operator) (phrase : Phrase) :
    position.scan phrase.tokens = some ⟨.operator, position.opened⟩ := by
  rcases position with ⟨due, opened⟩
  cases due with
  | operand => exact scan_tokens phrase opened
  | argument => exact (scan_argument phrase).trans (scan_tokens phrase opened)
  | operator => exact absurd rfl expects

/-!
## What leads nowhere
-/

/-- A token that begins no phrase and, where that would do instead, does not end arguments. -/
theorem step_eq_none {position : Position} {token : Token} (expects : position.due ≠ .operator)
    (further : position.due = .argument → token ≠ .rightParen)
    (other : token.beginsPhrase = false) : position.step token = none := by
  rcases position with ⟨due, opened⟩
  cases due with
  | operand => cases token <;> first | rfl | cases other
  | argument =>
      cases token with
      | rightParen => exact absurd rfl (further rfl)
      | _ => first | rfl | cases other
  | operator => exact absurd rfl expects

/-- A token that does not continue a phrase, and does not fit between the parentheses around it. -/
theorem goOn_eq_none {bracket : Bracket} {token : Token}
    (loose : Precedence.of token ≤ .lowest) (unclosed : token ≠ .rightParen)
    (unlisted : bracket = .call → token ≠ .comma) : goOn (bracket :: opened) token = none := by
  cases token with
  | plus | minus | star | slash | starStar | leftParen => exact absurd loose (by decide)
  | rightParen => exact absurd rfl unclosed
  | comma =>
      cases bracket with
      | group => rfl
      | call => exact absurd rfl (unlisted rfl)
  | _ => rfl

private theorem not_illegal_of_scan {position next : Position} {tokens : List Token} {text : String}
    (scanned : position.scan tokens = some next) : .illegal text ∉ tokens := by
  induction tokens generalizing position with
  | nil => simp
  | cons token tokens ih =>
      rcases Option.bind_eq_some_iff.mp scanned with ⟨middle, stepped, further⟩
      refine fun member => (List.mem_cons.mp member).elim (fun same => ?_) (ih further)
      subst same
      rcases position with ⟨due, opened⟩
      cases due <;> cases stepped

end Position

namespace IsBeginning

open Position

theorem of_phrase {phrase : Phrase} {front behind : List Token} (derived : Derives .sum phrase)
    (spelled : phrase.tokens = front ++ behind) : IsBeginning front :=
  ⟨phrase, derived, behind, spelled.symm⟩

theorem of_append {front behind : List Token} (begins : IsBeginning (front ++ behind)) :
    IsBeginning front := by
  rcases begins with ⟨phrase, derived, spelled⟩
  exact ⟨phrase, derived, (List.prefix_append front behind).trans spelled⟩

theorem scan {tokens : List Token} (begins : IsBeginning tokens) :
    ∃ position, start.scan tokens = some position := by
  rcases begins with ⟨phrase, derived, rest, spelled⟩
  have read : start.scan phrase.tokens = some ⟨.operator, []⟩ := scan_tokens phrase []
  rw [← spelled, scan_append] at read
  rcases Option.bind_eq_some_iff.mp read with ⟨position, scanned, -⟩
  exact ⟨position, scanned⟩

theorem not_illegal {tokens : List Token} (begins : IsBeginning tokens) (text : String) :
    .illegal text ∉ tokens := by
  rcases begins.scan with ⟨position, scanned⟩
  exact not_illegal_of_scan scanned

/-- Tokens behind which there is no position begin no expression. -/
theorem not_of_step_eq_none {position : Position} {front : List Token} {token : Token}
    (scanned : start.scan front = some position) (stuck : position.step token = none) :
    ¬ IsBeginning (front ++ [token]) := by
  intro begins
  rcases begins.scan with ⟨next, whole⟩
  simp [scanned, stuck] at whole

end IsBeginning

end Calculator
