import Calculator.Proofs.Evaluation.Operation

/-!
# Types of expressions

A check before evaluation, which reads the names and the shape of an expression and none of its
numbers. An expression without a type never has a value. An expression with a type has a value of
this type, unless a divisor in it turns out to be zero.
-/

set_option autoImplicit false

namespace Calculator

/-- What an expression can evaluate to, as far as its text tells: a number, or the one function
that a name stands for. -/
inductive StaticType where
  | number
  | builtin (function : Builtin)
deriving DecidableEq, Repr

def StaticType.ofValue? : Value → Option StaticType
  | .number _ => some .number
  | .builtin function => some (.builtin function)
  | .error _ => none

namespace Expr

/-!
## The rules and the check
-/

inductive HasType : Expr → StaticType → Prop where
  | number {x} : HasType (.number x) .number
  | identifier {name builtin} :
      Builtin.ofName? name = some builtin → HasType (.identifier name) (.builtin builtin)
  | signed {sign operand} : HasType operand .number → HasType (.signed sign operand) .number
  | binary {left operator right} :
      HasType left .number → HasType right .number →
      HasType (.binary left operator right) .number
  | call {function arguments builtin} :
      HasType function (.builtin builtin) → arguments.length = builtin.arity →
      (∀ argument ∈ arguments, HasType argument .number) →
      HasType (.call function arguments) .number

mutual

/-- The type of an expression, if it has one. -/
def type? : Expr → Option StaticType
  | .number _ => some .number
  | .identifier name => (Builtin.ofName? name).map .builtin
  | .signed _ operand => if operand.type? = some .number then some .number else none
  | .binary left _ right =>
      if left.type? = some .number ∧ right.type? = some .number then some .number else none
  | .call function arguments =>
      match function.type? with
      | some (.builtin builtin) =>
          if arguments.length = builtin.arity ∧ allNumbers arguments then some .number else none
      | _ => none

def allNumbers : List Expr → Bool
  | [] => true
  | argument :: arguments => argument.type? = some .number && allNumbers arguments

end

private theorem allNumbers_iff {arguments : List Expr} :
    allNumbers arguments ↔ ∀ argument ∈ arguments, argument.type? = some .number := by
  induction arguments with
  | nil => simp [allNumbers]
  | cons argument arguments ih => simp [allNumbers, ih]

variable {expr : Expr} {type : StaticType}

theorem HasType.type?_eq (typed : HasType expr type) : expr.type? = some type := by
  induction typed with
  | number => rw [type?]
  | identifier known => rw [type?, known, Option.map_some]
  | signed operand ih => rw [type?, if_pos ih]
  | binary left right leftIH rightIH => rw [type?, if_pos ⟨leftIH, rightIH⟩]
  | call callee count arguments calleeIH argumentsIH =>
      rw [type?, calleeIH]
      exact if_pos ⟨count, allNumbers_iff.mpr argumentsIH⟩

/-- The check gives the types of the rules. -/
theorem type?_eq_some_iff : expr.type? = some type ↔ HasType expr type := by
  refine ⟨?_, HasType.type?_eq⟩
  induction expr using children_induction generalizing type with
  | node expr ih =>
      intro checked
      cases expr with
      | number x =>
          cases checked
          exact .number
      | identifier name =>
          rw [type?, Option.map_eq_some_iff] at checked
          obtain ⟨builtin, known, rfl⟩ := checked
          exact .identifier known
      | signed sign operand =>
          rw [type?, Option.ite_none_right_eq_some] at checked
          obtain ⟨number, same⟩ := checked
          cases same
          exact .signed (ih operand (by simp [children]) number)
      | binary left operator right =>
          rw [type?, Option.ite_none_right_eq_some] at checked
          obtain ⟨⟨leftNumber, rightNumber⟩, same⟩ := checked
          cases same
          exact .binary (ih left (by simp [children]) leftNumber)
            (ih right (by simp [children]) rightNumber)
      | call function arguments =>
          rw [type?] at checked
          split at checked
          next builtin callee =>
            rw [Option.ite_none_right_eq_some] at checked
            obtain ⟨⟨count, numbers⟩, same⟩ := checked
            cases same
            exact .call (ih function (by simp [children]) callee) count fun argument member =>
              ih argument (by simp [children, member]) (allNumbers_iff.mp numbers argument member)
          next => cases checked

theorem HasType.unique {other : StaticType} (typed : HasType expr type)
    (again : HasType expr other) : type = other :=
  Option.some.inj (typed.type?_eq.symm.trans again.type?_eq)

/-!
## Numbers have no part in it
-/

mutual

/-- The same expression with zero in the place of every number. -/
def eraseNumbers : Expr → Expr
  | .number _ => .number 0
  | .identifier name => .identifier name
  | .signed sign operand => .signed sign operand.eraseNumbers
  | .binary left operator right => .binary left.eraseNumbers operator right.eraseNumbers
  | .call function arguments => .call function.eraseNumbers (eraseAllNumbers arguments)

def eraseAllNumbers : List Expr → List Expr
  | [] => []
  | argument :: arguments => argument.eraseNumbers :: eraseAllNumbers arguments

end

private theorem eraseAllNumbers_eq (arguments : List Expr) :
    eraseAllNumbers arguments = arguments.map eraseNumbers := by
  induction arguments with
  | nil => rw [eraseAllNumbers, List.map_nil]
  | cons argument arguments ih => rw [eraseAllNumbers, ih, List.map_cons]

theorem type?_eraseNumbers (expr : Expr) : expr.eraseNumbers.type? = expr.type? := by
  induction expr using children_induction with
  | node expr ih =>
      cases expr with
      | number | identifier => rfl
      | signed sign operand =>
          rw [eraseNumbers, type?, type?, ih operand (by simp [children])]
      | binary left operator right =>
          rw [eraseNumbers, type?, type?, ih left (by simp [children]),
            ih right (by simp [children])]
      | call function arguments =>
          have numbers : allNumbers (eraseAllNumbers arguments) = allNumbers arguments := by
            rw [Bool.eq_iff_iff, allNumbers_iff, allNumbers_iff, eraseAllNumbers_eq,
              List.forall_mem_map]
            exact forall₂_congr fun argument member => by
              rw [ih argument (by simp [children, member])]
          rw [eraseNumbers, type?, type?, ih function (by simp [children]), numbers,
            eraseAllNumbers_eq, List.length_map]

/-!
## Types and values
-/

private theorem HasType.children (typed : HasType expr type) :
    ∀ child ∈ expr.children, ∃ type, HasType child type := by
  cases typed with
  | number | identifier => simp [Expr.children]
  | signed operand => exact List.forall_mem_singleton.mpr ⟨_, operand⟩
  | binary left right => simpa [Expr.children] using ⟨⟨_, left⟩, ⟨_, right⟩⟩
  | call callee count arguments =>
      refine List.forall_mem_cons.mpr ⟨⟨_, callee⟩, ?_⟩
      intro argument member
      exact ⟨_, arguments argument member⟩

section Calls

variable {function : Expr} {arguments : List Expr} {builtin : Builtin} {values : List Value}

private theorem hasType_call_of_numbers (callee : HasType function (.builtin builtin))
    (typed : ∀ argument ∈ arguments, ∀ x, HasValue argument (.number x) → HasType argument .number)
    (known : List.Forall₂ HasValue arguments values) (count : values.length = builtin.arity)
    (numbers : ∀ value ∈ values, value.type = .number) :
    HasType (.call function arguments) .number := by
  refine .call callee (known.length_eq.trans count) fun argument member => ?_
  obtain ⟨value, among, has⟩ := exists_hasValue_of_mem known member
  obtain ⟨x, rfl⟩ := Value.type_eq_number_iff.mp (numbers value among)
  exact typed argument member x has

end Calls

/-- An expression that has a value has the type of this value. -/
theorem HasValue.hasType {value : Value} (has : HasValue expr value)
    (fits : StaticType.ofValue? value = some type) : HasType expr type := by
  induction expr using children_induction generalizing value type with
  | node expr ih =>
      obtain ⟨known, operates⟩ := has
      cases operates with
      | number =>
          cases fits
          exact .number
      | identifier found =>
          cases fits
          exact .identifier found
      | signed =>
          cases fits
          obtain ⟨operand, -⟩ := List.forall₂_cons.mp known
          exact .signed (ih _ (by simp [Expr.children]) operand rfl)
      | binary defined =>
          cases fits
          obtain ⟨left, known⟩ := List.forall₂_cons.mp known
          obtain ⟨right, -⟩ := List.forall₂_cons.mp known
          exact .binary (ih _ (by simp [Expr.children]) left rfl)
            (ih _ (by simp [Expr.children]) right rfl)
      | unary compute | binaryFunction compute =>
          cases fits
          obtain ⟨callee, known⟩ := List.forall₂_cons.mp known
          exact hasType_call_of_numbers (ih _ List.mem_cons_self callee rfl)
            (fun argument member x has => ih argument (List.mem_cons_of_mem _ member) has rfl)
            known (by simp [Builtin.arity, compute]) (by simp [Value.type])

/-- A value of an expression that has a type is of this type. -/
theorem HasType.fits {value : Value} (typed : HasType expr type) (has : HasValue expr value) :
    StaticType.ofValue? value = some type := by
  have proper := has.type_ne_error
  cases value with
  | number x => rw [typed.unique (has.hasType rfl), StaticType.ofValue?]
  | builtin function => rw [typed.unique (has.hasType rfl), StaticType.ofValue?]
  | error cause => exact absurd rfl proper

section Values

variable {value : Value} {values : List Value} {nodes : List Expr} {builtin : Builtin}
variable {cause : EvalError}

private theorem HasType.eq_builtin (typed : HasType expr (.builtin builtin))
    (has : HasValue expr value) : value = .builtin builtin := by
  have fits := typed.fits has
  cases value <;> cases fits
  rfl

theorem HasType.type_eq_number (typed : HasType expr .number) (has : HasValue expr value) :
    value.type = .number := by
  have fits := typed.fits has
  cases value <;> cases fits
  rfl

private theorem type_eq_number_of_mem (typed : ∀ node ∈ nodes, HasType node .number)
    (known : List.Forall₂ HasValue nodes values) (among : value ∈ values) :
    value.type = .number := by
  obtain ⟨node, member, has⟩ := exists_hasValue_of_mem_values known among
  exact (typed node member).type_eq_number has

/-- A typed operation refuses the values of its children only where it divides. -/
theorem HasType.operates_error (typed : HasType expr type)
    (known : List.Forall₂ HasValue expr.children values)
    (fails : expr.Operates values (.error cause)) : cause = .divisionByZero := by
  cases fails with
  | divisionByZero zero => rfl
  | unknownIdentifier unknown =>
      cases typed with
      | identifier found => cases unknown.symm.trans found
  | unknownSign other =>
      obtain ⟨has, -⟩ := List.forall₂_cons.mp known
      cases typed with
      | signed operand => exact absurd (operand.type_eq_number has) other
  | unknownOperator same other =>
      obtain ⟨has, -⟩ := List.forall₂_cons.mp known
      cases typed with
      | binary left right => exact absurd (left.type_eq_number has) other
  | typeMismatch different =>
      obtain ⟨first, known⟩ := List.forall₂_cons.mp known
      obtain ⟨second, -⟩ := List.forall₂_cons.mp known
      cases typed with
      | binary left right =>
          have same := (left.type_eq_number first).trans (right.type_eq_number second).symm
          exact absurd same different
  | argumentCount wrong =>
      obtain ⟨has, known⟩ := List.forall₂_cons.mp known
      cases typed with
      | call callee count arguments =>
          cases callee.eq_builtin has
          exact absurd (known.length_eq.symm.trans count) wrong
  | expectedNumbers count other =>
      obtain ⟨-, known⟩ := List.forall₂_cons.mp known
      obtain ⟨value, among, other⟩ := other
      cases typed with
      | call callee _ arguments => exact absurd (type_eq_number_of_mem arguments known among) other
  | notCallable other =>
      obtain ⟨has, -⟩ := List.forall₂_cons.mp known
      cases typed with
      | call callee count arguments =>
          cases callee.eq_builtin has
          exact absurd rfl other

private theorem exists_mem_of_mapM_eval_error (failed : nodes.mapM eval = .error cause) :
    ∃ node ∈ nodes, node.eval = .error cause := by
  induction nodes with
  | nil => cases failed
  | cons node nodes ih =>
      obtain failed | ⟨value, _, failed⟩ := mapM_eval_cons_eq_error_iff.mp failed
      · exact ⟨node, List.mem_cons_self, failed⟩
      · obtain ⟨later, member, failed⟩ := ih failed
        exact ⟨later, List.mem_cons_of_mem _ member, failed⟩

theorem HasType.eval_error (typed : HasType expr type) (failed : expr.eval = .error cause) :
    cause = .divisionByZero := by
  induction expr using children_induction generalizing type with
  | node expr ih =>
      obtain failed | ⟨values, known, fails⟩ := eval_eq_error_iff.mp failed
      · obtain ⟨child, below, failed⟩ := exists_mem_of_mapM_eval_error failed
        obtain ⟨type, typed⟩ := typed.children child below
        exact ih child below typed failed
      · exact typed.operates_error (mapM_eval_eq_ok_iff.mp known) fails

end Values

/-!
## What the check decides
-/

theorem HasType.value_of_number (typed : HasType expr .number) :
    (∃ x, expr.value = .number x) ∨ expr.value = .error .divisionByZero := by
  unfold value
  cases evaluated : expr.eval with
  | ok value =>
      left
      exact Value.type_eq_number_iff.mp (typed.type_eq_number (hasValue_iff.mpr evaluated))
  | error cause =>
      right
      rw [typed.eval_error evaluated, Value.ofEvaluation]

theorem HasType.value_of_builtin {builtin : Builtin} (typed : HasType expr (.builtin builtin)) :
    expr.value = .builtin builtin ∧
      ∃ name, expr = .identifier name ∧ Builtin.ofName? name = some builtin := by
  cases typed with
  | @identifier name _ found =>
      refine ⟨?_, name, rfl, found⟩
      simp [value, eval, evalIdentifier, found, Value.ofEvaluation]

private theorem exists_error_of_not_hasType (untyped : ∀ type, ¬ HasType expr type) :
    ∃ cause, expr.value = .error cause := by
  cases evaluated : expr.eval with
  | error cause => exact ⟨cause, value_eq_error_iff.mpr evaluated⟩
  | ok value =>
      have has := hasValue_iff.mpr evaluated
      cases value with
      | number | builtin => exact absurd (has.hasType rfl) (untyped _)
      | error cause => exact absurd rfl has.type_ne_error

/-- The check tells before evaluation whether an expression comes to a number, to a function or to
a failure; only a division by zero it cannot foresee. Without a type the expression fails, and
would with any other numbers in it. -/
theorem check_decides_failure (expr : Expr) :
    (∀ type, expr.type? = some type ↔ HasType expr type) ∧
    (HasType expr .number →
      (∃ x, expr.value = .number x) ∨ expr.value = .error .divisionByZero) ∧
    (∀ builtin, HasType expr (.builtin builtin) →
      expr.value = .builtin builtin ∧
        ∃ name, expr = .identifier name ∧ Builtin.ofName? name = some builtin) ∧
    ((∀ type, ¬ HasType expr type) →
      ∀ other : Expr, other.eraseNumbers = expr.eraseNumbers →
        ∃ cause, other.value = .error cause) := by
  refine ⟨fun type => type?_eq_some_iff, HasType.value_of_number,
    fun builtin => HasType.value_of_builtin, ?_⟩
  intro untyped other same
  refine exists_error_of_not_hasType fun type typed => untyped type ?_
  rw [← type?_eq_some_iff, ← type?_eraseNumbers, ← same, type?_eraseNumbers]
  exact typed.type?_eq

example : (binary (.identifier "sin") .add (.number 1)).type? = none := rfl

end Expr

end Calculator
