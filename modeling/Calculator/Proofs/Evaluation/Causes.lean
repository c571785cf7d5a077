import Calculator.Proofs.Evaluation.Order

/-!
# Causes of failure

What the cause of a failed evaluation says, and of which node of the expression. A failure ends the
evaluation before anything is done with it, so it is the operand of no operation: the types that a
cause names are those of numbers and functions only.
-/

set_option autoImplicit false

namespace Calculator

/-- The types that a cause names. -/
def EvalError.types : EvalError → List ValueType
  | .unknownIdentifier _ => []
  | .unknownSign _ operand => [operand]
  | .unknownOperator left _ right => [left, right]
  | .typeMismatch left _ right => [left, right]
  | .divisionByZero => []
  | .argumentCount _ _ _ => []
  | .expectedNumbers _ found => found
  | .notCallable found => [found]

namespace Expr

/-- What a cause says of a node of the tree that fails with it. -/
inductive CanFailWith (tree : Expr) : EvalError → Prop where
  | unknownIdentifier {name} :
      .identifier name ∈ tree.postorder → Builtin.ofName? name = none →
      CanFailWith tree (.unknownIdentifier name)
  | unknownSign {sign operand} :
      .signed sign operand ∈ tree.postorder → CanFailWith tree (.unknownSign sign .builtin)
  | unknownOperator {left operator right} :
      .binary left operator right ∈ tree.postorder →
      CanFailWith tree (.unknownOperator .builtin operator .builtin)
  | typeMismatch {left operator right leftType rightType} :
      .binary left operator right ∈ tree.postorder →
      leftType = .number ∧ rightType = .builtin ∨ leftType = .builtin ∧ rightType = .number →
      CanFailWith tree (.typeMismatch leftType operator rightType)
  | divisionByZero {left right} :
      .binary left .div right ∈ tree.postorder → CanFailWith tree .divisionByZero
  | argumentCount {function arguments} {builtin : Builtin} :
      .call function arguments ∈ tree.postorder → arguments.length ≠ builtin.arity →
      CanFailWith tree (.argumentCount builtin.name builtin.arity arguments.length)
  | expectedNumbers {function arguments found} {builtin : Builtin} :
      .call function arguments ∈ tree.postorder → arguments.length = builtin.arity →
      found.length = builtin.arity → .builtin ∈ found →
      (∀ type ∈ found, type = .number ∨ type = .builtin) →
      CanFailWith tree (.expectedNumbers builtin.name found)
  | notCallable {function arguments} :
      .call function arguments ∈ tree.postorder → CanFailWith tree (.notCallable .number)

variable {tree node : Expr} {cause : EvalError} {value : Value}

/-!
## Types of operands
-/

theorem HasValue.type_cases (has : HasValue node value) :
    value.type = .number ∨ value.type = .builtin := by
  have proper := has.type_ne_error
  cases value with
  | number => exact .inl rfl
  | builtin => exact .inr rfl
  | error => exact absurd rfl proper

private theorem HasValue.type_eq_builtin (has : HasValue node value)
    (other : value.type ≠ .number) :
    value.type = .builtin :=
  has.type_cases.resolve_left other

theorem HasValue.type_eq_number (has : HasValue node value) (other : value.type ≠ .builtin) :
    value.type = .number :=
  has.type_cases.resolve_right other

/-!
## The node that fails
-/

/-- A node fails only by what its operation makes of numbers and functions. -/
theorem Fails.canFailWith (fails : Fails node cause) (inside : node ∈ tree.postorder) :
    tree.CanFailWith cause := by
  obtain ⟨values, known, operates⟩ := fails
  cases operates with
  | unknownIdentifier unknown => exact .unknownIdentifier inside unknown
  | unknownSign other =>
      obtain ⟨operand, -⟩ := List.forall₂_cons.mp known
      rw [operand.type_eq_builtin other]
      exact .unknownSign inside
  | divisionByZero zero => exact .divisionByZero inside
  | unknownOperator same other =>
      obtain ⟨left, -⟩ := List.forall₂_cons.mp known
      rw [← same, left.type_eq_builtin other]
      exact .unknownOperator inside
  | typeMismatch different =>
      obtain ⟨left, known⟩ := List.forall₂_cons.mp known
      obtain ⟨right, -⟩ := List.forall₂_cons.mp known
      refine .typeMismatch inside ?_
      rcases left.type_cases with number | builtin
      · exact .inl ⟨number, right.type_eq_builtin fun again => different (number.trans again.symm)⟩
      · exact .inr ⟨builtin, right.type_eq_number fun again => different (builtin.trans again.symm)⟩
  | argumentCount wrong =>
      obtain ⟨-, operands⟩ := List.forall₂_cons.mp known
      rw [← operands.length_eq] at wrong ⊢
      exact .argumentCount inside wrong
  | expectedNumbers count other =>
      obtain ⟨-, operands⟩ := List.forall₂_cons.mp known
      obtain ⟨value, among, other⟩ := other
      obtain ⟨argument, -, has⟩ := exists_hasValue_of_mem_values operands among
      refine .expectedNumbers inside (operands.length_eq.trans count) (by simpa using count) ?_ ?_
      · exact List.mem_map.mpr ⟨value, among, has.type_eq_builtin other⟩
      · intro type named
        obtain ⟨operand, among, rfl⟩ := List.mem_map.mp named
        obtain ⟨argument, -, has⟩ := exists_hasValue_of_mem_values operands among
        exact has.type_cases
  | notCallable other =>
      obtain ⟨callee, -⟩ := List.forall₂_cons.mp known
      rw [callee.type_eq_number other]
      exact .notCallable inside

private theorem CanFailWith.error_not_mem_types (fails : tree.CanFailWith cause) :
    .error ∉ cause.types := by
  cases fails with
  | typeMismatch _ sides =>
      rcases sides with ⟨rfl, rfl⟩ | ⟨rfl, rfl⟩ <;> simp [EvalError.types]
  | expectedNumbers _ _ _ _ all =>
      intro named
      rcases all .error named with same | same <;> cases same
  | _ => simp [EvalError.types]

theorem canFailWith_of_value (failed : tree.value = .error cause) : tree.CanFailWith cause := by
  obtain ⟨before, node, behind, whole, -, fails⟩ :=
    eval_eq_error_iff_firstFailure.mp (value_eq_error_iff.mp failed)
  have inside : node ∈ tree.postorder := by simp [whole]
  exact fails.canFailWith inside

/-- Evaluation never gives a failure in the guise of a value, so no operation has one as its operand.
The cause with which an expression fails says what it says of a node in it, and whatever types it
names are those of numbers and functions. -/
theorem failure_is_no_operand (expr : Expr) :
    (∀ cause, expr.eval ≠ .ok (.error cause)) ∧
    ∀ cause, expr.value = .error cause →
      expr.CanFailWith cause ∧ .error ∉ cause.types := by
  constructor
  · intro cause evaluated
    exact (hasValue_iff.mpr evaluated).type_ne_error rfl
  · intro cause failed
    have canFail := canFailWith_of_value failed
    exact ⟨canFail, canFail.error_not_mem_types⟩

example : (binary (.number 1) .add (.call (.identifier "sin") [.identifier "cos"])).value =
    .error (.expectedNumbers "sin" [.builtin]) := rfl

end Expr

end Calculator
