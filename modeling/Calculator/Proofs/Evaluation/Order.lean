import Calculator.Proofs.Evaluation.Operation

/-!
# The order of evaluation

The nodes of an expression are evaluated in postorder: every node behind the nodes below it, the
left operand in front of the right one, and a callee in front of its arguments. The first node in
this order whose own operation fails ends the evaluation, and its cause is the result unchanged.
-/

set_option autoImplicit false

namespace Calculator

namespace Expr

/-!
## Postorder
-/

mutual

/-- The nodes of an expression, with the node itself last. -/
def postorder : Expr → List Expr
  | .number value => [.number value]
  | .identifier name => [.identifier name]
  | .signed sign operand => operand.postorder ++ [.signed sign operand]
  | .binary left operator right =>
      left.postorder ++ right.postorder ++ [.binary left operator right]
  | .call function arguments =>
      function.postorder ++ postorders arguments ++ [.call function arguments]

def postorders : List Expr → List Expr
  | [] => []
  | argument :: arguments => argument.postorder ++ postorders arguments

end

private theorem postorders_eq (arguments : List Expr) :
    postorders arguments = arguments.flatMap postorder := by
  induction arguments with
  | nil => rw [postorders, List.flatMap_nil]
  | cons argument arguments ih => rw [postorders, ih, List.flatMap_cons]

theorem postorder_eq (node : Expr) :
    node.postorder = node.children.flatMap postorder ++ [node] := by
  cases node <;> simp [postorder, children, postorders_eq]

/-!
## The first failure
-/

/-- One of the nodes fails with this cause, and every node in front of it has a value. -/
def FirstFailure (nodes : List Expr) (cause : EvalError) : Prop :=
  ∃ before node behind, nodes = before ++ node :: behind ∧
    (∀ earlier ∈ before, ∃ value, HasValue earlier value) ∧ Fails node cause

variable {node : Expr} {nodes : List Expr} {cause : EvalError}

theorem not_firstFailure_nil : ¬ FirstFailure [] cause := by
  intro failure
  obtain ⟨before, node, behind, whole, -, -⟩ := failure
  simp at whole

theorem firstFailure_cons :
    FirstFailure (node :: nodes) cause ↔
      Fails node cause ∨ (∃ value, HasValue node value) ∧ FirstFailure nodes cause := by
  constructor
  · intro failure
    obtain ⟨before, failing, behind, whole, succeed, fails⟩ := failure
    cases before with
    | nil =>
        cases whole
        exact .inl fails
    | cons first before =>
        cases whole
        obtain ⟨first, rest⟩ := List.forall_mem_cons.mp succeed
        exact .inr ⟨first, before, failing, behind, rfl, rest, fails⟩
  · intro failure
    obtain fails | ⟨first, before, failing, behind, rfl, rest, fails⟩ := failure
    · exact ⟨[], node, nodes, rfl, by simp, fails⟩
    · exact ⟨node :: before, failing, behind, rfl, List.forall_mem_cons.mpr ⟨first, rest⟩, fails⟩

theorem firstFailure_singleton : FirstFailure [node] cause ↔ Fails node cause := by
  simp [firstFailure_cons, not_firstFailure_nil]

theorem firstFailure_append {front back : List Expr} :
    FirstFailure (front ++ back) cause ↔
      FirstFailure front cause ∨
        (∀ node ∈ front, ∃ value, HasValue node value) ∧ FirstFailure back cause := by
  induction front with
  | nil => simp [not_firstFailure_nil]
  | cons node front ih =>
      rw [List.cons_append, firstFailure_cons, firstFailure_cons, ih, List.forall_mem_cons,
        and_or_left, or_assoc, and_assoc]

/-!
## Evaluation in postorder
-/

/-- An expression has a value exactly if all its nodes have one. -/
theorem forall_mem_postorder_iff :
    (∀ inner ∈ node.postorder, ∃ value, HasValue inner value) ↔ ∃ value, HasValue node value := by
  constructor
  · intro all
    refine all node ?_
    rw [postorder_eq]
    exact List.mem_append_right _ List.mem_cons_self
  · rintro ⟨value, has⟩
    induction node using children_induction generalizing value with
    | node node ih =>
        intro inner member
        rw [postorder_eq, List.mem_append, List.mem_flatMap, List.mem_singleton] at member
        obtain ⟨child, below, member⟩ | rfl := member
        · cases has with
          | node known operates =>
              obtain ⟨value, -, has⟩ := exists_hasValue_of_mem known below
              exact ih child below value has inner member
        · exact ⟨value, has⟩

private theorem forall_mem_flatMap_postorder
    (succeed : ∀ node ∈ nodes, ∃ value, HasValue node value) :
    ∀ inner ∈ nodes.flatMap postorder, ∃ value, HasValue inner value := by
  intro inner member
  obtain ⟨node, below, member⟩ := List.mem_flatMap.mp member
  exact forall_mem_postorder_iff.mpr (succeed node below) inner member

private theorem mapM_eval_eq_error_iff
    (each : ∀ node ∈ nodes, node.eval = .error cause ↔ FirstFailure node.postorder cause) :
    nodes.mapM eval = .error cause ↔ FirstFailure (nodes.flatMap postorder) cause := by
  induction nodes with
  | nil => exact iff_of_false (by simp [pure, Except.pure]) not_firstFailure_nil
  | cons node nodes ih =>
      obtain ⟨first, rest⟩ := List.forall_mem_cons.mp each
      rw [mapM_eval_cons_eq_error_iff, List.flatMap_cons, firstFailure_append, first, ih rest,
        forall_mem_postorder_iff]
      simp only [hasValue_iff, exists_and_right]

theorem eval_eq_error_iff_firstFailure :
    node.eval = .error cause ↔ FirstFailure node.postorder cause := by
  induction node using children_induction with
  | node node ih =>
      rw [eval_eq_error_iff, ← fails_iff, mapM_eval_eq_error_iff ih, postorder_eq,
        firstFailure_append, firstFailure_singleton]
      constructor
      · rintro (below | fails)
        · exact .inl below
        · obtain ⟨values, known, operates⟩ := id fails
          refine .inr ⟨forall_mem_flatMap_postorder fun child below => ?_, fails⟩
          obtain ⟨value, -, has⟩ := exists_hasValue_of_mem known below
          exact ⟨value, has⟩
      · rintro (below | ⟨-, fails⟩)
        · exact .inl below
        · exact .inr fails

/-- The failure of a child is that of the node, if all children in front of it have values. What
the node does with values has no part in it. -/
theorem eval_of_child_error {child : Expr} {before behind : List Expr}
    (below : node.children = before ++ child :: behind)
    (succeed : ∀ earlier ∈ before, ∃ value, HasValue earlier value)
    (failed : child.eval = .error cause) : node.eval = .error cause := by
  have first := eval_eq_error_iff_firstFailure.mp failed
  rw [eval_eq_error_iff_firstFailure, postorder_eq, below, List.flatMap_append,
    List.flatMap_cons, List.append_assoc, List.append_assoc, firstFailure_append,
    firstFailure_append]
  exact .inr ⟨forall_mem_flatMap_postorder succeed, .inl first⟩

/-- Evaluation fails with a cause exactly if it is that of the first node in postorder whose own
operation fails, given the values of its children, and every node in front of it has a value. So
an argument that fails decides over a callee that cannot be called or takes another number of
arguments, and a callee that fails decides over all arguments. -/
theorem value_eq_error_iff_firstFailure :
    (∀ (expr : Expr) (cause : EvalError),
      expr.value = .error cause ↔ FirstFailure expr.postorder cause) ∧
    (∀ (expr : Expr) (value : Value), HasValue expr value ↔ expr.eval = .ok value) ∧
    (∀ (function argument : Expr) (before behind : List Expr) (cause : EvalError),
      (∃ callee, HasValue function callee) →
      (∀ earlier ∈ before, ∃ value, HasValue earlier value) → argument.value = .error cause →
      (call function (before ++ argument :: behind)).value = .error cause) ∧
    ∀ (function : Expr) (arguments : List Expr) (cause : EvalError),
      function.value = .error cause → (call function arguments).value = .error cause := by
  simp only [value_eq_error_iff]
  refine ⟨fun _ _ => eval_eq_error_iff_firstFailure, fun _ _ => hasValue_iff, ?_, ?_⟩
  · intro function argument before behind cause callee succeed failed
    have below : (call function (before ++ argument :: behind)).children =
        (function :: before) ++ argument :: behind := rfl
    exact eval_of_child_error below (List.forall_mem_cons.mpr ⟨callee, succeed⟩) failed
  · intro function arguments cause failed
    have below : (call function arguments).children = [] ++ function :: arguments := rfl
    exact eval_of_child_error below (by simp) failed

example : (call (.number 1) [.identifier "x"]).value = .error (.unknownIdentifier "x") := rfl

end Expr

end Calculator
