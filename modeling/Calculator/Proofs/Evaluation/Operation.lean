import Calculator.Eval
import Mathlib.Data.List.Forall2

/-!
# Operations

What a node of an expression does by itself, with the values of the nodes below it: which value it
computes, or with which cause it fails. An expression has a value if all operations in it compute
one, from the leaves upwards, and this is the value that evaluation gives. A failure is no value
here: where an operation fails, the nodes above it have none.
-/

set_option autoImplicit false

namespace Calculator

/-!
## Values and their types
-/

namespace Value

variable {value : Value}

theorem type_eq_number_iff : value.type = .number ↔ ∃ x, value = .number x := by
  cases value <;> simp [type]

private theorem type_eq_builtin_iff :
    value.type = .builtin ↔ ∃ function, value = .builtin function := by
  cases value <;> simp [type]

end Value

/-!
## The rules
-/

/-- What an operator computes from two numbers, where it computes something. -/
def Operator.compute : Operator → Float → Float → Float
  | .add, x, y => x + y
  | .sub, x, y => x - y
  | .mul, x, y => x * y
  | .div, x, y => x / y
  | .pow, x, y => x.pow y

namespace Expr

/-- The nodes right below a node, in the order in which they are evaluated. -/
def children : Expr → List Expr
  | .number _ => []
  | .identifier _ => []
  | .signed _ operand => [operand]
  | .binary left _ right => [left, right]
  | .call function arguments => function :: arguments

/-- What the operation of a node comes to, given the values of its children. -/
inductive Operates : Expr → List Value → Evaluation Value → Prop where
  | number {x} : Operates (.number x) [] (.ok (.number x))
  | identifier {name builtin} :
      Builtin.ofName? name = some builtin → Operates (.identifier name) [] (.ok (.builtin builtin))
  | unknownIdentifier {name} :
      Builtin.ofName? name = none →
      Operates (.identifier name) [] (.error (.unknownIdentifier name))
  | signed {sign operand x} :
      Operates (.signed sign operand) [.number x] (.ok (.number (sign.apply x)))
  | unknownSign {sign operand value} :
      value.type ≠ .number →
      Operates (.signed sign operand) [value] (.error (.unknownSign sign value.type))
  | binary {left operator right x y} :
      ¬ (operator = .div ∧ y == 0) →
      Operates (.binary left operator right) [.number x, .number y]
        (.ok (.number (operator.compute x y)))
  | divisionByZero {left right x y} :
      y == 0 →
      Operates (.binary left .div right) [.number x, .number y] (.error .divisionByZero)
  | unknownOperator {left operator right x y} :
      x.type = y.type → x.type ≠ .number →
      Operates (.binary left operator right) [x, y]
        (.error (.unknownOperator x.type operator y.type))
  | typeMismatch {left operator right x y} :
      x.type ≠ y.type →
      Operates (.binary left operator right) [x, y]
        (.error (.typeMismatch x.type operator y.type))
  | unary {function arguments builtin compute x} :
      builtin.numericFunction = .unary compute →
      Operates (.call function arguments) [.builtin builtin, .number x] (.ok (.number (compute x)))
  | binaryFunction {function arguments builtin compute x y} :
      builtin.numericFunction = .binary compute →
      Operates (.call function arguments) [.builtin builtin, .number x, .number y]
        (.ok (.number (compute x y)))
  | argumentCount {function arguments builtin values} :
      values.length ≠ builtin.arity →
      Operates (.call function arguments) (.builtin builtin :: values)
        (.error (.argumentCount builtin.name builtin.arity values.length))
  | expectedNumbers {function arguments builtin values} :
      values.length = builtin.arity → (∃ value ∈ values, value.type ≠ .number) →
      Operates (.call function arguments) (.builtin builtin :: values)
        (.error (.expectedNumbers builtin.name (values.map Value.type)))
  | notCallable {function arguments value values} :
      value.type ≠ .builtin →
      Operates (.call function arguments) (value :: values) (.error (.notCallable value.type))

/-- An expression has a value if its children have, and its operation computes the value from
theirs. -/
inductive HasValue : Expr → Value → Prop where
  | node {node values value} :
      List.Forall₂ HasValue node.children values → node.Operates values (.ok value) →
      HasValue node value

/-- The children of an expression have values, and its own operation refuses them. -/
def Fails (node : Expr) (cause : EvalError) : Prop :=
  ∃ values, List.Forall₂ HasValue node.children values ∧ node.Operates values (.error cause)

/-!
## Below a node
-/

private theorem sizeOf_lt_of_mem_children {node child : Expr} (below : child ∈ node.children) :
    sizeOf child < sizeOf node := by
  cases node with
  | number | identifier => cases below
  | signed sign operand =>
      cases List.mem_singleton.mp below
      simp only [signed.sizeOf_spec]
      omega
  | binary left operator right =>
      simp only [binary.sizeOf_spec]
      rcases List.mem_pair.mp below with rfl | rfl <;> omega
  | call function arguments =>
      simp only [call.sizeOf_spec]
      rcases List.mem_cons.mp below with rfl | member
      · omega
      · have smaller := List.sizeOf_lt_of_mem member
        omega

/-- What holds of a node whenever it holds of its children holds of every expression. -/
@[elab_as_elim]
theorem children_induction {motive : Expr → Prop}
    (node : ∀ node, (∀ child ∈ node.children, motive child) → motive node) (expr : Expr) :
    motive expr :=
  node expr fun child _ => children_induction node child
termination_by sizeOf expr
decreasing_by exact sizeOf_lt_of_mem_children ‹_›

end Expr

/-!
## Operations as they are evaluated
-/

private theorem Operator.evalNumbers_eq (operator : Operator) (x y : Float) :
    operator.evalNumbers x y =
      if operator = .div ∧ y == 0 then .error .divisionByZero
      else .ok (.number (operator.compute x y)) := by
  cases operator <;> simp [evalNumbers, compute]

theorem Operator.eval_of_not_numbers {operator : Operator} {x y : Value}
    (other : ¬ (x.type = .number ∧ y.type = .number)) :
    operator.eval x y =
      if x.type = y.type then .error (.unknownOperator x.type operator y.type)
      else .error (.typeMismatch x.type operator y.type) := by
  unfold eval
  split
  next => exact absurd ⟨rfl, rfl⟩ other
  next => rfl

private theorem Value.apply_of_not_builtin {value : Value} (other : value.type ≠ .builtin)
    (values : List Value) : value.apply values = .error (.notCallable value.type) := by
  cases value with
  | builtin => exact absurd rfl other
  | number | error => rfl

namespace Builtin

variable {builtin : Builtin}

theorem apply_unary {compute : Float → Float} (unary : builtin.numericFunction = .unary compute)
    (x : Float) : builtin.apply [.number x] = .ok (.number (compute x)) := by
  simp [apply, unary]

theorem apply_binary {compute : Float → Float → Float}
    (binary : builtin.numericFunction = .binary compute) (x y : Float) :
    builtin.apply [.number x, .number y] = .ok (.number (compute x y)) := by
  simp [apply, binary]

theorem apply_of_length_ne {values : List Value} (wrong : values.length ≠ builtin.arity) :
    builtin.apply values =
      .error (.argumentCount builtin.name builtin.arity values.length) := by
  unfold apply
  split
  next compute x unary => exact absurd (by simp [arity, unary]) wrong
  next compute x y binary => exact absurd (by simp [arity, binary]) wrong
  next => rw [if_neg wrong]

theorem apply_of_not_number {values : List Value} (count : values.length = builtin.arity)
    (other : ∃ value ∈ values, value.type ≠ .number) :
    builtin.apply values =
      .error (.expectedNumbers builtin.name (values.map Value.type)) := by
  unfold apply
  split
  next compute x unary => simp [Value.type] at other
  next compute x y binary => simp [Value.type] at other
  next => rw [if_pos count]

/-- As many numbers as a function takes. -/
theorem exists_numbers {values : List Value} (count : values.length = builtin.arity)
    (numbers : ∀ value ∈ values, value.type = .number) :
    (∃ compute x, builtin.numericFunction = .unary compute ∧ values = [.number x]) ∨
      ∃ compute x y, builtin.numericFunction = .binary compute ∧
        values = [.number x, .number y] := by
  cases function : builtin.numericFunction with
  | unary compute =>
      rw [arity, function] at count
      obtain ⟨value, rfl⟩ := List.length_eq_one_iff.mp count
      obtain ⟨x, rfl⟩ := Value.type_eq_number_iff.mp (numbers value List.mem_cons_self)
      exact .inl ⟨compute, x, rfl, rfl⟩
  | binary compute =>
      rw [arity, function] at count
      obtain ⟨first, second, rfl⟩ := List.length_eq_two.mp count
      obtain ⟨x, rfl⟩ := Value.type_eq_number_iff.mp (numbers first (by simp))
      obtain ⟨y, rfl⟩ := Value.type_eq_number_iff.mp (numbers second (by simp))
      exact .inr ⟨compute, x, y, rfl, rfl⟩

end Builtin

namespace Expr

variable {values : List Value} {outcome : Evaluation Value}

theorem operates_number_iff {x : Float} :
    Operates (.number x) values outcome ↔ values = [] ∧ outcome = .ok (.number x) := by
  constructor
  · rintro ⟨⟩
    exact ⟨rfl, rfl⟩
  · rintro ⟨rfl, rfl⟩
    exact .number

theorem operates_identifier_iff {name : String} :
    Operates (.identifier name) values outcome ↔
      values = [] ∧ outcome = evalIdentifier name := by
  constructor
  · intro operates
    cases operates with
    | identifier known => exact ⟨rfl, by rw [evalIdentifier, known]⟩
    | unknownIdentifier unknown => exact ⟨rfl, by rw [evalIdentifier, unknown]⟩
  · rintro ⟨rfl, rfl⟩
    unfold evalIdentifier
    split
    next known => exact .identifier known
    next unknown => exact .unknownIdentifier unknown

theorem operates_signed_iff {sign : Sign} {operand : Expr} :
    Operates (.signed sign operand) values outcome ↔
      ∃ value, values = [value] ∧ outcome = sign.eval value := by
  constructor
  · intro operates
    cases operates with
    | signed => exact ⟨_, rfl, rfl⟩
    | @unknownSign _ _ value other =>
        refine ⟨value, rfl, ?_⟩
        cases value with
        | number => exact absurd rfl other
        | builtin | error => rfl
  · rintro ⟨value, rfl, rfl⟩
    cases value with
    | number => exact .signed
    | builtin | error => exact .unknownSign (by simp [Value.type])

theorem operates_binary_iff {left right : Expr} {operator : Operator} :
    Operates (.binary left operator right) values outcome ↔
      ∃ x y, values = [x, y] ∧ outcome = operator.eval x y := by
  constructor
  · intro operates
    cases operates with
    | binary defined =>
        exact ⟨_, _, rfl, by rw [Operator.eval, Operator.evalNumbers_eq, if_neg defined]⟩
    | divisionByZero zero =>
        exact ⟨_, _, rfl, by rw [Operator.eval, Operator.evalNumbers_eq, if_pos ⟨rfl, zero⟩]⟩
    | unknownOperator same other =>
        exact ⟨_, _, rfl, by rw [Operator.eval_of_not_numbers (other ·.1), if_pos same]⟩
    | typeMismatch different =>
        refine ⟨_, _, rfl, ?_⟩
        rw [Operator.eval_of_not_numbers fun both => different (both.1.trans both.2.symm),
          if_neg different]
  · rintro ⟨x, y, rfl, rfl⟩
    by_cases numbers : x.type = .number ∧ y.type = .number
    · obtain ⟨x, rfl⟩ := Value.type_eq_number_iff.mp numbers.1
      obtain ⟨y, rfl⟩ := Value.type_eq_number_iff.mp numbers.2
      rw [Operator.eval, Operator.evalNumbers_eq]
      split
      next refused =>
          obtain ⟨rfl, zero⟩ := refused
          exact .divisionByZero zero
      next defined => exact .binary defined
    · rw [Operator.eval_of_not_numbers numbers]
      split
      next same => exact .unknownOperator same fun number => numbers ⟨number, same ▸ number⟩
      next different => exact .typeMismatch different

theorem operates_call_iff {function : Expr} {arguments : List Expr} :
    Operates (.call function arguments) values outcome ↔
      ∃ callee operands, values = callee :: operands ∧ outcome = callee.apply operands := by
  constructor
  · intro operates
    cases operates with
    | unary known => exact ⟨_, _, rfl, (Builtin.apply_unary known _).symm⟩
    | binaryFunction known => exact ⟨_, _, rfl, (Builtin.apply_binary known _ _).symm⟩
    | argumentCount wrong => exact ⟨_, _, rfl, (Builtin.apply_of_length_ne wrong).symm⟩
    | expectedNumbers count other =>
        exact ⟨_, _, rfl, (Builtin.apply_of_not_number count other).symm⟩
    | notCallable other => exact ⟨_, _, rfl, (Value.apply_of_not_builtin other _).symm⟩
  · rintro ⟨callee, operands, rfl, rfl⟩
    by_cases callable : callee.type = .builtin
    · obtain ⟨builtin, rfl⟩ := Value.type_eq_builtin_iff.mp callable
      rw [Value.apply]
      by_cases count : operands.length = builtin.arity
      · by_cases other : ∃ value ∈ operands, value.type ≠ .number
        · rw [Builtin.apply_of_not_number count other]
          exact .expectedNumbers count other
        · obtain ⟨compute, x, known, rfl⟩ | ⟨compute, x, y, known, rfl⟩ :=
            Builtin.exists_numbers count (by simpa using other)
          · rw [Builtin.apply_unary known]
            exact .unary known
          · rw [Builtin.apply_binary known]
            exact .binaryFunction known
      · rw [Builtin.apply_of_length_ne count]
        exact .argumentCount count
    · rw [Value.apply_of_not_builtin callable]
      exact .notCallable callable

/-!
## Evaluation, node by node
-/

section Lists

variable {node : Expr} {nodes : List Expr} {cause : EvalError}

theorem mapM_eval_cons_eq_ok_iff :
    (node :: nodes).mapM eval = .ok values ↔
      ∃ value rest, values = value :: rest ∧ node.eval = .ok value ∧
        nodes.mapM eval = .ok rest := by
  rw [List.mapM_cons]
  cases node.eval with
  | error cause => simp [bind, Except.bind]
  | ok value =>
      cases nodes.mapM eval <;> simp [bind, Except.bind, pure, Except.pure, eq_comm]

theorem mapM_eval_cons_eq_error_iff :
    (node :: nodes).mapM eval = .error cause ↔
      node.eval = .error cause ∨ ∃ value, node.eval = .ok value ∧
        nodes.mapM eval = .error cause := by
  rw [List.mapM_cons]
  cases node.eval with
  | error cause => simp [bind, Except.bind]
  | ok value => cases nodes.mapM eval <;> simp [bind, Except.bind, pure, Except.pure]

/-- The accumulator only holds the values of the arguments in front. -/
theorem evalArguments_eq (evaluated : List Value) (arguments : List Expr) :
    evalArguments evaluated arguments = (arguments.mapM eval).map (evaluated.reverse ++ ·) := by
  induction arguments generalizing evaluated with
  | nil => simp [evalArguments, pure, Except.pure, Except.map]
  | cons argument arguments ih =>
      rw [evalArguments, List.mapM_cons]
      cases argument.eval with
      | error cause => rfl
      | ok value =>
          refine (ih (value :: evaluated)).trans ?_
          cases arguments.mapM eval <;>
            simp [Except.map, bind, Except.bind, pure, Except.pure]

theorem evalArguments_nil_eq (arguments : List Expr) :
    evalArguments [] arguments = arguments.mapM eval := by
  rw [evalArguments_eq]
  cases arguments.mapM eval <;> rfl

private theorem eval_of_children_error (failed : node.children.mapM eval = .error cause) :
    node.eval = .error cause := by
  cases node with
  | number | identifier => cases failed
  | signed sign operand =>
      obtain failed | ⟨value, known, ended⟩ := mapM_eval_cons_eq_error_iff.mp failed
      · rw [eval, failed]
        rfl
      · cases ended
  | binary left operator right =>
      obtain failed | ⟨x, known, failed⟩ := mapM_eval_cons_eq_error_iff.mp failed
      · rw [eval, failed]
        rfl
      obtain failed | ⟨y, _, ended⟩ := mapM_eval_cons_eq_error_iff.mp failed
      · rw [eval, known, failed]
        rfl
      · cases ended
  | call function arguments =>
      obtain failed | ⟨callee, known, failed⟩ := mapM_eval_cons_eq_error_iff.mp failed
      · rw [eval, failed]
        rfl
      · rw [eval, known, evalArguments_nil_eq, failed]
        rfl

private theorem eval_of_children_ok (known : node.children.mapM eval = .ok values) :
    node.Operates values node.eval := by
  cases node with
  | number x =>
      cases known
      exact operates_number_iff.mpr ⟨rfl, rfl⟩
  | identifier name =>
      cases known
      exact operates_identifier_iff.mpr ⟨rfl, by rw [eval]⟩
  | signed sign operand =>
      obtain ⟨value, rest, rfl, first, ended⟩ := mapM_eval_cons_eq_ok_iff.mp known
      cases ended
      refine operates_signed_iff.mpr ⟨value, rfl, ?_⟩
      rw [eval, first]
      rfl
  | binary left operator right =>
      obtain ⟨x, rest, rfl, first, further⟩ := mapM_eval_cons_eq_ok_iff.mp known
      obtain ⟨y, rest, rfl, second, ended⟩ := mapM_eval_cons_eq_ok_iff.mp further
      cases ended
      refine operates_binary_iff.mpr ⟨x, y, rfl, ?_⟩
      rw [eval, first, second]
      rfl
  | call function arguments =>
      obtain ⟨callee, operands, rfl, first, further⟩ := mapM_eval_cons_eq_ok_iff.mp known
      refine operates_call_iff.mpr ⟨callee, operands, rfl, ?_⟩
      rw [eval, first, evalArguments_nil_eq, further]
      rfl

end Lists

/-- An operation comes to one thing only. -/
theorem Operates.unique {node : Expr} {other : Evaluation Value}
    (operates : node.Operates values outcome) (again : node.Operates values other) :
    outcome = other := by
  cases node with
  | number x =>
      rw [(operates_number_iff.mp operates).2, (operates_number_iff.mp again).2]
  | identifier name =>
      rw [(operates_identifier_iff.mp operates).2, (operates_identifier_iff.mp again).2]
  | signed sign operand =>
      obtain ⟨value, rfl, rfl⟩ := operates_signed_iff.mp operates
      obtain ⟨same, shape, rfl⟩ := operates_signed_iff.mp again
      cases shape
      rfl
  | binary left operator right =>
      obtain ⟨x, y, rfl, rfl⟩ := operates_binary_iff.mp operates
      obtain ⟨x', y', shape, rfl⟩ := operates_binary_iff.mp again
      cases shape
      rfl
  | call function arguments =>
      obtain ⟨callee, operands, rfl, rfl⟩ := operates_call_iff.mp operates
      obtain ⟨callee', operands', shape, rfl⟩ := operates_call_iff.mp again
      cases shape
      rfl

/-- What an operation computes is never a failure in the guise of a value. -/
theorem Operates.type_ne_error {node : Expr} {value : Value}
    (operates : node.Operates values (.ok value)) : value.type ≠ .error := by
  cases operates <;> simp [Value.type]

section Evaluation

variable {node : Expr} {value : Value} {cause : EvalError}

theorem eval_eq_ok_iff :
    node.eval = .ok value ↔
      ∃ values, node.children.mapM eval = .ok values ∧ node.Operates values (.ok value) := by
  constructor
  · intro evaluated
    cases known : node.children.mapM eval with
    | error cause => cases (eval_of_children_error known).symm.trans evaluated
    | ok values => exact ⟨values, rfl, evaluated ▸ eval_of_children_ok known⟩
  · rintro ⟨values, known, operates⟩
    exact (eval_of_children_ok known).unique operates

theorem eval_eq_error_iff :
    node.eval = .error cause ↔
      node.children.mapM eval = .error cause ∨
        ∃ values, node.children.mapM eval = .ok values ∧ node.Operates values (.error cause) := by
  constructor
  · intro evaluated
    cases known : node.children.mapM eval with
    | error failed =>
        cases (eval_of_children_error known).symm.trans evaluated
        exact .inl rfl
    | ok values => exact .inr ⟨values, rfl, evaluated ▸ eval_of_children_ok known⟩
  · rintro (failed | ⟨values, known, operates⟩)
    · exact eval_of_children_error failed
    · exact (eval_of_children_ok known).unique operates

private theorem forall₂_hasValue_iff {nodes : List Expr} {values : List Value}
    (each : ∀ node ∈ nodes, ∀ value, HasValue node value ↔ node.eval = .ok value) :
    List.Forall₂ HasValue nodes values ↔ nodes.mapM eval = .ok values := by
  induction nodes generalizing values with
  | nil => simp [pure, Except.pure, eq_comm]
  | cons node nodes ih =>
      obtain ⟨first, rest⟩ := List.forall_mem_cons.mp each
      simp only [List.forall₂_cons_left_iff, mapM_eval_cons_eq_ok_iff, first, ih rest]
      grind

/-- The values that the rules give are those of evaluation. -/
theorem hasValue_iff : HasValue node value ↔ node.eval = .ok value := by
  induction node using children_induction generalizing value with
  | node node ih =>
      have below {values : List Value} : List.Forall₂ HasValue node.children values ↔
          node.children.mapM eval = .ok values :=
        forall₂_hasValue_iff fun child member value => ih child member
      rw [eval_eq_ok_iff]
      constructor
      · rintro ⟨known, operates⟩
        exact ⟨_, below.mp known, operates⟩
      · rintro ⟨values, known, operates⟩
        exact .node (below.mpr known) operates

theorem mapM_eval_eq_ok_iff {nodes : List Expr} {values : List Value} :
    nodes.mapM eval = .ok values ↔ List.Forall₂ HasValue nodes values :=
  (forall₂_hasValue_iff fun _ _ _ => hasValue_iff).symm

theorem exists_hasValue_of_mem {nodes : List Expr} {values : List Value}
    (known : List.Forall₂ HasValue nodes values) (member : node ∈ nodes) :
    ∃ value ∈ values, HasValue node value := by
  induction known with
  | nil => cases member
  | cons first rest ih =>
      rcases List.mem_cons.mp member with rfl | member
      · exact ⟨_, List.mem_cons_self, first⟩
      · obtain ⟨value, among, has⟩ := ih member
        exact ⟨value, List.mem_cons_of_mem _ among, has⟩

theorem exists_hasValue_of_mem_values {nodes : List Expr} {values : List Value}
    (known : List.Forall₂ HasValue nodes values) (among : value ∈ values) :
    ∃ node ∈ nodes, HasValue node value := by
  induction known with
  | nil => cases among
  | cons first rest ih =>
      rcases List.mem_cons.mp among with rfl | among
      · exact ⟨_, List.mem_cons_self, first⟩
      · obtain ⟨node, member, has⟩ := ih among
        exact ⟨node, List.mem_cons_of_mem _ member, has⟩

theorem fails_iff :
    Fails node cause ↔
      ∃ values, node.children.mapM eval = .ok values ∧ node.Operates values (.error cause) := by
  simp only [Fails, mapM_eval_eq_ok_iff]

theorem HasValue.type_ne_error (has : HasValue node value) : value.type ≠ .error := by
  cases has with
  | node _ operates => exact operates.type_ne_error

/-- A failure is reported as the value exactly if evaluation fails. -/
theorem value_eq_error_iff : node.value = .error cause ↔ node.eval = .error cause := by
  unfold value
  cases evaluated : node.eval with
  | error failed => simp [Value.ofEvaluation]
  | ok value =>
      refine iff_of_false ?_ (by simp)
      rintro rfl
      exact (hasValue_iff.mpr evaluated).type_ne_error rfl

end Evaluation

end Expr

/-- The value that a function gives carries what it came to, a failure included. -/
theorem Builtin.toEvaluation_call (builtin : Builtin) (values : List Value) :
    (builtin.call values).toEvaluation = builtin.apply values := by
  unfold call
  cases applied : builtin.apply values with
  | error cause => rfl
  | ok value =>
      have operates : (Expr.call (.identifier builtin.name) []).Operates
          (.builtin builtin :: values) (.ok value) :=
        Expr.operates_call_iff.mpr ⟨_, _, rfl, applied.symm⟩
      cases value with
      | number | builtin => rfl
      | error => exact absurd rfl operates.type_ne_error

end Calculator
