import Calculator.Proofs.Evaluation.Operation

/-!
# The arguments of a function

A function checks the count of its arguments, then their types, and only then computes. So where it
looks a number up by its position there is one, whatever list of values it is given. A call hands it
the values of all arguments, or fails like the first argument that has none.
-/

set_option autoImplicit false

namespace Calculator

/-!
## Numbers by position
-/

/-- The number that a value is, if it is one. -/
def Value.number? : Value → Option Float
  | .number x => some x
  | _ => none

namespace NumericFunction

def arity : NumericFunction → Nat
  | .unary _ => 1
  | .binary _ => 2

/-- What a function computes from numbers in their order. -/
inductive Computes : NumericFunction → List Float → Float → Prop where
  | unary {compute x} : Computes (.unary compute) [x] (compute x)
  | binary {compute x y} : Computes (.binary compute) [x, y] (compute x y)

/-- What a function computes from the numbers that it looks up by their positions. Behind the last
number a position has none. -/
def computeAt? : NumericFunction → List Float → Option Float
  | .unary compute, numbers => do
      let x ← numbers[0]?
      return compute x
  | .binary compute, numbers => do
      let x ← numbers[0]?
      let y ← numbers[1]?
      return compute x y

variable {function : NumericFunction} {numbers : List Float} {result : Float}

theorem Computes.length_eq (computes : function.Computes numbers result) :
    numbers.length = function.arity := by
  cases computes <;> rfl

private theorem Computes.computeAt?_eq (computes : function.Computes numbers result) :
    function.computeAt? numbers = some result := by
  cases computes <;> rfl

/-- As many numbers as a function takes have something at every position that it looks up. -/
theorem exists_computes (count : numbers.length = function.arity) :
    ∃ result, function.Computes numbers result := by
  cases function with
  | unary compute =>
      obtain ⟨x, rfl⟩ := List.length_eq_one_iff.mp count
      exact ⟨_, .unary⟩
  | binary compute =>
      obtain ⟨x, y, rfl⟩ := List.length_eq_two.mp count
      exact ⟨_, .binary⟩

end NumericFunction

/-!
## Values that are numbers
-/

section Numbers

variable {values : List Value}

private theorem mapM_number?_map (numbers : List Float) :
    (numbers.map Value.number).mapM Value.number? = some numbers := by
  induction numbers with
  | nil => rfl
  | cons x numbers ih => simp [Value.number?, ih]

private theorem mapM_number?_eq_none (other : ∃ value ∈ values, value.type ≠ .number) :
    values.mapM Value.number? = none := by
  induction values with
  | nil => simp at other
  | cons value values ih =>
      rw [List.mapM_cons]
      cases value with
      | number x =>
          have later : ∃ value ∈ values, value.type ≠ .number := by simpa [Value.type] using other
          simp [Value.number?, ih later]
      | builtin | error => rfl

private theorem exists_map_number (all : ∀ value ∈ values, value.type = .number) :
    ∃ numbers : List Float, values = numbers.map Value.number := by
  induction values with
  | nil => exact ⟨[], rfl⟩
  | cons value values ih =>
      obtain ⟨first, rest⟩ := List.forall_mem_cons.mp all
      obtain ⟨x, rfl⟩ := Value.type_eq_number_iff.mp first
      obtain ⟨numbers, rfl⟩ := ih rest
      exact ⟨x :: numbers, rfl⟩

private theorem type_of_mem_map_number {numbers : List Float} {value : Value}
    (member : value ∈ numbers.map Value.number) : value.type = .number := by
  obtain ⟨x, -, rfl⟩ := List.mem_map.mp member
  rfl

end Numbers

/-!
## The checks of a function
-/

namespace Builtin

/-- The steps of a function, one after the other: the count is checked, the numbers are collected,
and the function looks them up by position. There is nothing if it looks behind the last number. -/
def applyInSteps? (function : Builtin) (arguments : List Value) : Option (Evaluation Value) :=
  if arguments.length ≠ function.arity then
    some (.error (.argumentCount function.name function.arity arguments.length))
  else
    match arguments.mapM Value.number? with
    | none => some (.error (.expectedNumbers function.name (arguments.map Value.type)))
    | some numbers =>
        (function.numericFunction.computeAt? numbers).map fun result => .ok (.number result)

private theorem arity_eq (builtin : Builtin) : builtin.arity = builtin.numericFunction.arity := by
  cases builtin <;> rfl

private theorem apply_of_computes {builtin : Builtin} {numbers : List Float} {result : Float}
    (computes : builtin.numericFunction.Computes numbers result) :
    builtin.apply (numbers.map Value.number) = .ok (.number result) := by
  generalize known : builtin.numericFunction = function at computes
  cases computes with
  | unary => exact apply_unary known _
  | binary => exact apply_binary known _ _

/-- What a list of values comes to: too few or too many of them, something other than a number among
as many as the function takes, or as many numbers. -/
inductive Checks (builtin : Builtin) : List Value → Evaluation Value → Prop where
  | argumentCount {values} : values.length ≠ builtin.arity →
      Checks builtin values (.error (.argumentCount builtin.name builtin.arity values.length))
  | expectedNumbers {values} : values.length = builtin.arity →
      (∃ value ∈ values, value.type ≠ .number) →
      Checks builtin values (.error (.expectedNumbers builtin.name (values.map Value.type)))
  | computed {numbers result} : builtin.numericFunction.Computes numbers result →
      Checks builtin (numbers.map Value.number) (.ok (.number result))

variable (builtin : Builtin) (values : List Value)

theorem checks_apply : builtin.Checks values (builtin.apply values) := by
  by_cases count : values.length = builtin.arity
  · by_cases other : ∃ value ∈ values, value.type ≠ .number
    · rw [apply_of_not_number count other]
      exact .expectedNumbers count other
    · obtain ⟨numbers, rfl⟩ := exists_map_number (by simpa using other)
      rw [List.length_map, arity_eq] at count
      obtain ⟨result, computes⟩ := NumericFunction.exists_computes count
      rw [apply_of_computes computes]
      exact .computed computes
  · rw [apply_of_length_ne count]
    exact .argumentCount count

/-- The steps come to an end without a look behind the last number, and to what the function
gives. -/
theorem applyInSteps?_eq : builtin.applyInSteps? values = some (builtin.apply values) := by
  have checks := builtin.checks_apply values
  generalize builtin.apply values = outcome at checks
  cases checks with
  | argumentCount wrong => rw [applyInSteps?, if_pos wrong]
  | expectedNumbers count other =>
      rw [applyInSteps?, if_neg (not_not_intro count), mapM_number?_eq_none other]
  | @computed numbers result computes =>
      have count : (numbers.map Value.number).length = builtin.arity := by
        rw [List.length_map, computes.length_eq, arity_eq]
      rw [applyInSteps?, if_neg (not_not_intro count), mapM_number?_map]
      dsimp only
      rw [computes.computeAt?_eq, Option.map_some]

variable {builtin values}

theorem call_eq_argumentCount_iff :
    builtin.call values =
        .error (.argumentCount builtin.name builtin.arity values.length) ↔
      values.length ≠ builtin.arity := by
  have checks := builtin.checks_apply values
  rw [call]
  generalize builtin.apply values = outcome at checks
  cases checks with
  | argumentCount wrong => exact iff_of_true rfl wrong
  | expectedNumbers count => exact iff_of_false nofun (not_not_intro count)
  | computed computes =>
      refine iff_of_false nofun (not_not_intro ?_)
      rw [List.length_map, computes.length_eq, arity_eq]

theorem call_eq_expectedNumbers_iff :
    builtin.call values = .error (.expectedNumbers builtin.name (values.map Value.type)) ↔
      values.length = builtin.arity ∧ ∃ value ∈ values, value.type ≠ .number := by
  have checks := builtin.checks_apply values
  rw [call]
  generalize builtin.apply values = outcome at checks
  cases checks with
  | argumentCount wrong => exact iff_of_false nofun fun both => wrong both.1
  | expectedNumbers count other => exact iff_of_true rfl ⟨count, other⟩
  | computed =>
      refine iff_of_false nofun fun both => ?_
      obtain ⟨value, member, other⟩ := both.2
      exact other (type_of_mem_map_number member)

theorem exists_call_computes_iff :
    (∃ numbers result, values = numbers.map Value.number ∧
        builtin.numericFunction.Computes numbers result ∧
        builtin.call values = .number result) ↔
      values.length = builtin.arity ∧ ∀ value ∈ values, value.type = .number := by
  constructor
  · rintro ⟨numbers, result, rfl, computes, -⟩
    rw [List.length_map, computes.length_eq, arity_eq]
    exact ⟨rfl, fun value => type_of_mem_map_number⟩
  · rintro ⟨count, all⟩
    obtain ⟨numbers, rfl⟩ := exists_map_number all
    rw [List.length_map, arity_eq] at count
    obtain ⟨result, computes⟩ := NumericFunction.exists_computes count
    refine ⟨numbers, result, rfl, computes, ?_⟩
    rw [call, apply_of_computes computes, Value.ofEvaluation]

end Builtin

/-!
## Calls
-/

namespace Expr

/-- Either all expressions have values, or one of them is the first that has none. -/
theorem forall₂_eval_or_exists_error (arguments : List Expr) :
    (∃ values, List.Forall₂ (fun argument value => argument.eval = .ok value) arguments values) ∨
    ∃ before argument behind cause, arguments = before ++ argument :: behind ∧
      (∀ earlier ∈ before, ∃ value, earlier.eval = .ok value) ∧ argument.eval = .error cause := by
  induction arguments with
  | nil => exact .inl ⟨[], .nil⟩
  | cons argument arguments ih =>
      cases evaluated : argument.eval with
      | error cause => exact .inr ⟨[], argument, arguments, cause, rfl, nofun, evaluated⟩
      | ok value =>
          obtain ⟨values, known⟩ | ⟨before, failing, behind, cause, rfl, succeed, failed⟩ := ih
          · exact .inl ⟨value :: values, .cons evaluated known⟩
          · exact .inr ⟨argument :: before, failing, behind, cause, rfl,
              List.forall_mem_cons.mpr ⟨⟨value, evaluated⟩, succeed⟩, failed⟩

private theorem mapM_eval_of_forall₂ {arguments : List Expr} {values : List Value}
    (known : List.Forall₂ (fun argument value => argument.eval = .ok value) arguments values) :
    arguments.mapM eval = .ok values := by
  induction known with
  | nil => rfl
  | cons first _ ih => exact mapM_eval_cons_eq_ok_iff.mpr ⟨_, _, rfl, first, ih⟩

private theorem mapM_eval_of_error {before behind : List Expr} {argument : Expr} {cause : EvalError}
    (succeed : ∀ earlier ∈ before, ∃ value, earlier.eval = .ok value)
    (failed : argument.eval = .error cause) :
    (before ++ argument :: behind).mapM eval = .error cause := by
  induction before with
  | nil => exact mapM_eval_cons_eq_error_iff.mpr (.inl failed)
  | cons earlier before ih =>
      obtain ⟨⟨value, first⟩, rest⟩ := List.forall_mem_cons.mp succeed
      exact mapM_eval_cons_eq_error_iff.mpr (.inr ⟨value, first, ih rest⟩)

end Expr

private theorem Value.call_eq (function : Value) (arguments : List Expr) :
    function.call arguments = (arguments.mapM Expr.eval).bind function.apply := by
  rw [call, Expr.evalArguments_nil_eq]
  rfl

/-- For every list of values, a function looks nothing up behind the last of them. It refuses a wrong
count of values, whatever they are, and otherwise values that are not all numbers, and names the types
of all of them; from as many numbers as it takes it computes a number. Called on expressions, it fails
with the cause of the first one that has no value, or gives what it gives for their values. -/
theorem Builtin.call_checks_arguments (builtin : Builtin) :
    (∀ values : List Value,
      (builtin.applyInSteps? values).map Value.ofEvaluation = some (builtin.call values) ∧
      (builtin.call values =
          .error (.argumentCount builtin.name builtin.arity values.length) ↔
        values.length ≠ builtin.arity) ∧
      (builtin.call values = .error (.expectedNumbers builtin.name (values.map Value.type)) ↔
        values.length = builtin.arity ∧ ∃ value ∈ values, value.type ≠ .number) ∧
      ((∃ numbers result, values = numbers.map Value.number ∧
          builtin.numericFunction.Computes numbers result ∧
          builtin.call values = .number result) ↔
        values.length = builtin.arity ∧ ∀ value ∈ values, value.type = .number)) ∧
    ∀ arguments : List Expr,
      (∃ values,
        List.Forall₂ (fun argument value => argument.eval = .ok value) arguments values ∧
        (Value.builtin builtin).call arguments = (builtin.call values).toEvaluation) ∨
      ∃ before argument behind cause, arguments = before ++ argument :: behind ∧
        (∀ earlier ∈ before, ∃ value, earlier.eval = .ok value) ∧
        argument.eval = .error cause ∧
        (Value.builtin builtin).call arguments = .error cause := by
  constructor
  · intro values
    refine ⟨?_, call_eq_argumentCount_iff, call_eq_expectedNumbers_iff, exists_call_computes_iff⟩
    rw [applyInSteps?_eq, Option.map_some, call]
  · intro arguments
    rw [Value.call_eq]
    obtain ⟨values, known⟩ | ⟨before, argument, behind, cause, rfl, succeed, failed⟩ :=
      Expr.forall₂_eval_or_exists_error arguments
    · refine .inl ⟨values, known, ?_⟩
      rw [Expr.mapM_eval_of_forall₂ known, toEvaluation_call]
      rfl
    · refine .inr ⟨before, argument, behind, cause, rfl, succeed, failed, ?_⟩
      rw [Expr.mapM_eval_of_error succeed failed]
      rfl

example : Builtin.pow.call [.builtin .cos, .error .divisionByZero, .number 1] =
    .error (.argumentCount "pow" 2 3) := rfl

end Calculator
