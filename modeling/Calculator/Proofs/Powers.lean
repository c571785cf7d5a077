import Calculator.Proofs.Evaluation.Causes
import Calculator.Proofs.Printing.Tokens
import Calculator.Proofs.Shell.Response

/-!
# Powers by operator and by name

A power is written with an operator between its operands or as a call of a function with two
arguments. The two forms are read by different rules, which count nesting differently, and their
operands are checked in different ways; but whatever texts the operands are, both forms come to the
same, except that they refuse operands that are no numbers with causes of their own.
-/

set_option autoImplicit false

namespace Calculator

/-!
## Powers of values
-/

section Values

variable {x y : Value}

private theorem pow_eval_eq_apply (number : x.type = .number) (other : y.type = .number) :
    Operator.pow.eval x y = Builtin.pow.apply [x, y] := by
  obtain ⟨base, rfl⟩ := Value.type_eq_number_iff.mp number
  obtain ⟨exponent, rfl⟩ := Value.type_eq_number_iff.mp other
  rfl

private theorem pow_eval_error (refused : ¬ (x.type = .number ∧ y.type = .number)) :
    ∃ cause, Operator.pow.eval x y = .error cause := by
  rw [Operator.eval_of_not_numbers refused]
  split <;> exact ⟨_, rfl⟩

private theorem pow_apply_error (refused : ¬ (x.type = .number ∧ y.type = .number)) :
    ∃ cause, Builtin.pow.apply [x, y] = .error cause := by
  have other : ∃ value ∈ [x, y], value.type ≠ .number := by
    by_cases number : x.type = .number
    · exact ⟨y, by simp, fun also => refused ⟨number, also⟩⟩
    · exact ⟨x, by simp, number⟩
  exact ⟨_, Builtin.apply_of_not_number rfl other⟩

end Values

/-!
## Powers of expressions
-/

namespace Expr

/-- A power by its operator. -/
def power (base exponent : Expr) : Expr :=
  .binary base .pow exponent

/-- A power by the name of the function. -/
def powerCall (base exponent : Expr) : Expr :=
  .call (.identifier "pow") [base, exponent]

variable {base exponent : Expr}

theorem eval_power :
    (power base exponent).eval =
      base.eval.bind fun x => exponent.eval.bind fun y => Operator.pow.eval x y := by
  rw [power, eval]
  rfl

theorem eval_powerCall :
    (powerCall base exponent).eval =
      base.eval.bind fun x => exponent.eval.bind fun y => Builtin.pow.apply [x, y] := by
  have known : evalIdentifier "pow" = .ok (.builtin .pow) := rfl
  rw [powerCall, eval, eval, known, evalArguments_nil_eq, List.mapM_cons, List.mapM_cons,
    List.mapM_nil]
  cases base.eval with
  | error => rfl
  | ok x => cases exponent.eval <;> rfl

/-- Both operands have values, and one of them is a function. -/
def HasFunctionOperand (base exponent : Expr) : Prop :=
  ∃ x y, base.eval = .ok x ∧ exponent.eval = .ok y ∧ (x.type = .builtin ∨ y.type = .builtin)

theorem HasFunctionOperand.refused (operand : HasFunctionOperand base exponent) :
    (power base exponent).value.isError = true ∧
      (powerCall base exponent).value.isError = true := by
  obtain ⟨x, y, first, second, function⟩ := operand
  have refused : ¬ (x.type = .number ∧ y.type = .number) := by
    rintro ⟨number, other⟩
    rcases function with same | same
    · cases number.symm.trans same
    · cases other.symm.trans same
  constructor
  · obtain ⟨cause, failed⟩ := pow_eval_error refused
    have whole : (power base exponent).eval = .error cause := by
      rw [eval_power, first, second]
      exact failed
    rw [value_eq_error_iff.mpr whole]
    rfl
  · obtain ⟨cause, failed⟩ := pow_apply_error refused
    have whole : (powerCall base exponent).eval = .error cause := by
      rw [eval_powerCall, first, second]
      exact failed
    rw [value_eq_error_iff.mpr whole]
    rfl

/-- An operand that fails decides over both forms, and the base fails first. -/
theorem value_power_eq (numbers : ¬ HasFunctionOperand base exponent) :
    (power base exponent).value = (powerCall base exponent).value := by
  rw [value, value, eval_power, eval_powerCall]
  cases first : base.eval with
  | error => rfl
  | ok x =>
      cases second : exponent.eval with
      | error => rfl
      | ok y =>
          have left : x.type = .number := (hasValue_iff.mpr first).type_eq_number fun function =>
            numbers ⟨x, y, first, second, .inl function⟩
          have right : y.type = .number := (hasValue_iff.mpr second).type_eq_number fun function =>
            numbers ⟨x, y, first, second, .inr function⟩
          exact congrArg Value.ofEvaluation (pow_eval_eq_apply left right)

end Expr

/-!
## Powers as texts
-/

/-- A text of one expression, which goes at most this many expressions deep. -/
structure IsExpression (source : String) (tree : Expr) (depth : Nat) : Prop where
  parsed : parse source = .ok { statements := [tree] }
  spelled : ∃ phrase, Derives .sum phrase ∧ tokenize source = phrase.tokens ∧ phrase.depth ≤ depth

/-- The tree of an expression does not depend on the phrase by which it is found. -/
theorem IsExpression.exists_phrase {source : String} {tree : Expr} {depth : Nat}
    (expression : IsExpression source tree depth) :
    ∃ phrase, Derives .sum phrase ∧ tokenize source = phrase.tokens ∧ phrase.depth ≤ depth ∧
      phrase.tree = tree := by
  obtain ⟨phrase, derived, spelled, shallow⟩ := expression.spelled
  obtain ⟨phrases, split, fits, statements⟩ := exists_splits_of_parse expression.parsed
  have single : Splits [phrase] (tokenize source) := spelled ▸ .singleton derived
  have trees := (splits_unique split fits single).2
  rw [← statements, List.map_singleton] at trees
  exact ⟨phrase, derived, spelled, shallow, (List.cons.inj trees).1⟩

private theorem tokenize_power (base exponent : String) :
    tokenize ("(" ++ base ++ ") ** (" ++ exponent ++ ")") =
      .leftParen :: (tokenize base ++ [.rightParen]) ++
        .starStar :: .leftParen :: (tokenize exponent ++ [.rightParen]) := by
  have spelled : ("(" ++ base ++ ") ** (" ++ exponent ++ ")").toList =
      '(' :: (base.toList ++ ')' :: ' ' ::
        (Operator.pow.text.toList ++ ' ' :: '(' :: (exponent.toList ++ [')']))) := by
    simp [Operator.text]
  rw [tokenize_eq_stream, spelled, stream_symbol '(' rfl (by decide),
    stream_append_symbol ')' rfl rfl (by decide), Token.stream_blank rfl, stream_operator,
    stream_symbol '(' rfl (by decide), stream_append_symbol ')' rfl rfl (by decide)]
  simp [tokenize_eq_stream, Operator.token, Token.stream, Token.collect]

private theorem tokenize_powerCall (base exponent : String) :
    tokenize ("pow(" ++ base ++ ", " ++ exponent ++ ")") =
      .identifier "pow" :: .leftParen ::
        (tokenize base ++ .comma :: (tokenize exponent ++ [.rightParen])) := by
  have spelled : ("pow(" ++ base ++ ", " ++ exponent ++ ")").toList =
      "pow".toList ++ '(' :: (base.toList ++ ',' :: ' ' :: (exponent.toList ++ [')'])) := by
    simp
  have named : IsName "pow" := ⟨'p', ['o', 'w'], rfl, rfl, List.all_eq_true.mp rfl⟩
  rw [tokenize_eq_stream, spelled, lexes_name named (stopsAt_cons rfl _),
    stream_symbol '(' rfl (by decide), stream_append_symbol ',' rfl rfl (by decide),
    Token.stream_blank rfl, stream_append_symbol ')' rfl rfl (by decide)]
  simp [tokenize_eq_stream, Token.stream, Token.collect]

section Texts

variable {base exponent : String} {left right : Expr}
variable (baseText : IsExpression base left 254) (exponentText : IsExpression exponent right 254)
variable (baseHeight : left.height ≤ 255) (exponentHeight : right.height ≤ 255)
include baseText exponentText baseHeight exponentHeight

private theorem evaluate_power :
    evaluate ("(" ++ base ++ ") ** (" ++ exponent ++ ")") =
      .ok (some (Expr.power left right).value) := by
  obtain ⟨first, derived, spelled, shallow, rfl⟩ := baseText.exists_phrase
  obtain ⟨second, otherDerived, otherSpelled, otherShallow, rfl⟩ := exponentText.exists_phrase
  have whole : Derives .sum (.binary (.group first) .pow (.group second)) :=
    Expr.derives_binary (.ofPrimary (.group derived)) .pow (.ofPrimary (.group otherDerived))
  have fits : (Phrase.binary (.group first) .pow (.group second)).FitsWithin 0 := by
    simp only [Phrase.FitsWithin, Phrase.depth, Phrase.tree, Expr.height, maxNesting]
    omega
  refine evaluate_of_phrase whole fits ?_
  rw [tokenize_power, spelled, otherSpelled]
  rfl

private theorem evaluate_powerCall :
    evaluate ("pow(" ++ base ++ ", " ++ exponent ++ ")") =
      .ok (some (Expr.powerCall left right).value) := by
  obtain ⟨first, derived, spelled, shallow, rfl⟩ := baseText.exists_phrase
  obtain ⟨second, otherDerived, otherSpelled, otherShallow, rfl⟩ := exponentText.exists_phrase
  have arguments : ∀ argument ∈ [first, second], Derives .sum argument :=
    List.forall_mem_cons.mpr ⟨derived, List.forall_mem_singleton.mpr otherDerived⟩
  have whole : Derives .sum (.call (.identifier "pow") [first, second]) :=
    (Derives.call (.ofPrimary .identifier) arguments).toSum
  have fits : (Phrase.call (.identifier "pow") [first, second]).FitsWithin 0 := by
    simp only [Phrase.FitsWithin, Phrase.depth, Phrase.argumentDepth, Phrase.tree, Phrase.trees,
      Expr.height, Expr.tallest, maxNesting]
    omega
  refine evaluate_of_phrase whole fits ?_
  rw [tokenize_powerCall, spelled, otherSpelled]
  simp [Phrase.tokens, Phrase.argumentTokens, Phrase.furtherTokens]

/-- Two texts of one expression each, put into a power by the operator and into one by the function,
give texts that are both read, and come to the same number or the same failure. Only where both have
values and one of these is a function do the failures differ. -/
theorem power_agrees_with_function :
    ∃ power call : Value,
      evaluate ("(" ++ base ++ ") ** (" ++ exponent ++ ")") = .ok (some power) ∧
      evaluate ("pow(" ++ base ++ ", " ++ exponent ++ ")") = .ok (some call) ∧
      (¬ Expr.HasFunctionOperand left right → power = call) ∧
      (Expr.HasFunctionOperand left right → power.isError = true ∧ call.isError = true) :=
  ⟨_, _, evaluate_power baseText exponentText baseHeight exponentHeight,
    evaluate_powerCall baseText exponentText baseHeight exponentHeight, Expr.value_power_eq,
    Expr.HasFunctionOperand.refused⟩

end Texts

/-- The base fails, and so the exponent, which is on a line of its own, is not looked at. -/
theorem power_agrees_with_function_of_sine :
    IsExpression "-sin" (.signed .minus (.identifier "sin")) 254 ∧
      IsExpression "f\n(x)" (.call (.identifier "f") [.identifier "x"]) 254 ∧
      ∃ power call : Value,
        evaluate ("(" ++ "-sin" ++ ") ** (" ++ "f\n(x)" ++ ")") = .ok (some power) ∧
        evaluate ("pow(" ++ "-sin" ++ ", " ++ "f\n(x)" ++ ")") = .ok (some call) ∧
        power = call := by
  have signed : Derives .sum (.signed .minus (.identifier "sin")) :=
    (Derives.signed (.ofApplication (.ofPrimary .identifier))).toSum
  have called : Derives .sum (.call (.identifier "f") [.identifier "x"]) :=
    (Derives.call (.ofPrimary .identifier)
      (List.forall_mem_singleton.mpr Derives.identifier.toSum)).toSum
  have base : IsExpression "-sin" (.signed .minus (.identifier "sin")) 254 :=
    ⟨rfl, _, signed, rfl, by decide⟩
  have exponent : IsExpression "f\n(x)" (.call (.identifier "f") [.identifier "x"]) 254 :=
    ⟨rfl, _, called, rfl, by decide⟩
  obtain ⟨power, call, first, second, agree, -⟩ :=
    power_agrees_with_function base exponent (by decide) (by decide)
  have failed : (Expr.signed .minus (.identifier "sin")).eval =
      .error (.unknownSign .minus .builtin) := rfl
  refine ⟨base, exponent, power, call, first, second, agree ?_⟩
  rintro ⟨x, y, evaluated, -⟩
  cases failed.symm.trans evaluated

end Calculator
