import Calculator.Proofs.Evaluation.Operation

/-!
# What a program comes to

A program has no statements, or one of them fails, or the last one has a value. The result of the
program tells these apart: it is missing, the cause of a failure, or this value.
-/

set_option autoImplicit false

namespace Calculator.Program

def Fails (program : Program) : Prop :=
  ∃ statement ∈ program.statements, ∃ cause, statement.value = .error cause

/-- No statement fails, and the last one has this value. -/
structure EndsWith (program : Program) (value : Value) : Prop where
  succeeds : ¬ program.Fails
  last : ∃ statement ∈ program.statements.getLast?, statement.HasValue value

private theorem resultFrom_of_failure {statements : List Expr} (last : Option Value)
    (fails : ∃ statement ∈ statements, ∃ cause, statement.value = .error cause) :
    ∃ statement ∈ statements, ∃ cause, statement.value = .error cause ∧
      resultFrom last statements = some (.error cause) := by
  induction statements generalizing last with
  | nil =>
      obtain ⟨statement, member, -⟩ := fails
      cases member
  | cons first statements ih =>
      rw [resultFrom]
      split
      next cause failed => exact ⟨first, List.mem_cons_self, cause, failed, rfl⟩
      next succeeds =>
        obtain ⟨statement, member, cause, failed⟩ := fails
        rcases List.mem_cons.mp member with rfl | member
        · exact absurd failed (succeeds cause)
        · obtain ⟨failing, among, known⟩ := ih _ ⟨statement, member, cause, failed⟩
          exact ⟨failing, List.mem_cons_of_mem _ among, known⟩

private theorem resultFrom_of_success {statements : List Expr} (last : Option Value)
    (succeeds : ∀ statement ∈ statements, ∀ cause, statement.value ≠ .error cause) :
    resultFrom last statements = (statements.getLast?.map Expr.value).or last := by
  induction statements generalizing last with
  | nil => rfl
  | cons first statements ih =>
      obtain ⟨start, further⟩ := List.forall_mem_cons.mp succeeds
      rw [resultFrom]
      split
      next cause failed => exact absurd failed (start cause)
      next =>
        rw [ih _ further, List.getLast?_cons]
        cases statements.getLast? <;> rfl

variable {program : Program} {value : Value}

theorem Fails.exists_result (fails : program.Fails) :
    ∃ statement ∈ program.statements, ∃ cause, statement.value = .error cause ∧
      program.result = some (.error cause) :=
  resultFrom_of_failure none fails

theorem EndsWith.result_eq (ends : program.EndsWith value) : program.result = some value := by
  obtain ⟨statement, last, has⟩ := ends.last
  have succeeds : ∀ statement ∈ program.statements, ∀ cause, statement.value ≠ .error cause :=
    fun statement member cause failed => ends.succeeds ⟨statement, member, cause, failed⟩
  rw [result, resultFrom_of_success none succeeds, Option.mem_def.mp last]
  exact congrArg (fun evaluated => some (Value.ofEvaluation evaluated)) (Expr.hasValue_iff.mp has)

theorem EndsWith.type_ne_error (ends : program.EndsWith value) : value.type ≠ .error := by
  obtain ⟨statement, -, has⟩ := ends.last
  exact has.type_ne_error

/-- A program has no statements, or fails, or ends with a value. -/
theorem cases_end (program : Program) :
    program.statements = [] ∨ program.Fails ∨ ∃ value, program.EndsWith value := by
  by_cases fails : program.Fails
  · exact .inr (.inl fails)
  · cases last : program.statements.getLast? with
    | none => exact .inl (List.getLast?_eq_none_iff.mp last)
    | some statement =>
        have member := List.mem_of_getLast? last
        cases evaluated : statement.eval with
        | error cause =>
            exact absurd ⟨statement, member, cause, Expr.value_eq_error_iff.mpr evaluated⟩ fails
        | ok value =>
            exact .inr (.inr ⟨value, fails, statement, last, Expr.hasValue_iff.mpr evaluated⟩)

/-- Only a program without statements has no value. -/
theorem result_eq_none_iff : program.result = none ↔ program.statements = [] := by
  constructor
  · intro missing
    rcases program.cases_end with empty | fails | ⟨value, ends⟩
    · exact empty
    · obtain ⟨statement, -, cause, -, result⟩ := fails.exists_result
      cases missing.symm.trans result
    · cases missing.symm.trans ends.result_eq
  · intro empty
    rw [result, empty, resultFrom]

theorem fails_iff : program.Fails ↔ ∃ cause, program.result = some (.error cause) := by
  constructor
  · intro fails
    obtain ⟨statement, -, cause, -, result⟩ := fails.exists_result
    exact ⟨cause, result⟩
  · rintro ⟨cause, result⟩
    rcases program.cases_end with empty | fails | ⟨value, ends⟩
    · cases (result_eq_none_iff.mpr empty).symm.trans result
    · exact fails
    · cases ends.result_eq.symm.trans result
      exact absurd rfl ends.type_ne_error

end Calculator.Program
