import Calculator.Proofs.Parser.Agreement
import Calculator.Proofs.Token.Munch

/-!
# One text behind another

Blanks between two texts, of which the second does not continue the last expression of the first,
put their programs in sequence. What is wrong with the second text is reported as it would be
without the first one, and evaluation goes on behind the first text unless a statement of it has
failed.
-/

set_option autoImplicit false

namespace Calculator

/-!
## Programs in sequence
-/

namespace Program

/-- Statements that do not fail hand on the value of the last one. -/
theorem resultFrom_append (front back : List Expr) (last : Option Value)
    (proper : ∀ cause, last ≠ some (.error cause)) :
    ((∃ cause, resultFrom last front = some (.error cause)) →
      resultFrom last (front ++ back) = resultFrom last front) ∧
    (¬ (∃ cause, resultFrom last front = some (.error cause)) →
      resultFrom last (front ++ back) = resultFrom (resultFrom last front) back) := by
  induction front generalizing last with
  | nil => simp [resultFrom, proper]
  | cons statement front ih =>
      rw [List.cons_append, resultFrom, resultFrom]
      cases statement.value with
      | error cause => simp
      | number | builtin => exact ih _ (by simp)

theorem result_append (front back : Program) :
    ((∃ cause, front.result = some (.error cause)) ∨ back.statements = [] →
      result { statements := front.statements ++ back.statements } = front.result) ∧
    (¬ ((∃ cause, front.result = some (.error cause)) ∨ back.statements = []) →
      result { statements := front.statements ++ back.statements } = back.result) := by
  obtain ⟨halts, goesOn⟩ :=
    resultFrom_append front.statements back.statements none (by simp)
  constructor
  · intro reason
    obtain failed | empty := reason
    · exact halts failed
    · rw [empty, List.append_nil]
  · intro proceeds
    obtain ⟨succeeds, nonempty⟩ := not_or.mp proceeds
    refine (goesOn succeeds).trans ?_
    obtain ⟨statement, statements, shape⟩ := List.exists_cons_of_ne_nil nonempty
    rw [result, shape, resultFrom, resultFrom]

end Program

/-!
## Texts in sequence
-/

private theorem Precedence.of_le_lowest_of_not_mem {token : Token}
    (other : token ∉ [.plus, .minus, .star, .slash, .starStar, .leftParen]) :
    Precedence.of token ≤ .lowest := by
  cases token with
  | plus | minus | star | slash | starStar | leftParen => simp at other
  | _ => exact Nat.le_refl _

theorem statements_eq_nil_iff {source : String} {program : Program}
    (parsed : parse source = .ok program) : program.statements = [] ↔ tokenize source = [] := by
  obtain ⟨phrases, split, -, statements⟩ := exists_splits_of_parse parsed
  rw [statements, List.map_eq_nil_iff, ← split.spelled, List.flatMap_eq_nil_iff]
  cases phrases with
  | nil => simp
  | cons phrase phrases =>
      obtain ⟨token, rest, shape, -⟩ := phrase.tokens_eq_cons
      simp [shape]

section Sequence

variable {front blanks back : String} {program : Program}
variable (parsed : parse front = .ok program) (nonempty : blanks ≠ "")
variable (blank : ∀ c ∈ blanks.toList, isBlank c = true)
variable (separate : ∀ token, (tokenize back).head? = some token →
  token ∉ [.plus, .minus, .star, .slash, .starStar, .leftParen])
include parsed nonempty blank separate

theorem parse_append :
    parse (front ++ blanks ++ back) =
      (parse back).map fun further =>
        { statements := program.statements ++ further.statements } := by
  obtain ⟨phrases, split, fits, statements⟩ := exists_splits_of_parse parsed
  obtain ⟨turns, final, run, -, whole⟩ := exists_turns_parse (front ++ blanks ++ back)
  obtain ⟨others, otherFinal, otherRun, -, alone⟩ := exists_turns_parse back
  have spelled : (Parser.ofSource (front ++ blanks ++ back)).tokens =
      tokenize front ++ tokenize back := tokenize_append nonempty blank front back
  have ends : Precedence.of ((tokenize back).headD .endOfInput) ≤ .lowest := by
    cases shape : tokenize back with
    | nil => exact Nat.le_refl _
    | cons token rest => exact Precedence.of_le_lowest_of_not_mem (separate token (by simp [shape]))
  obtain ⟨further, rfl, behind⟩ := run.exists_further split fits spelled ends
  have same : further = others := behind.unique otherRun
  rw [whole, alone, same, List.filterMap_append, List.filterMap_append,
    filterMap_error?_ofPhrase, filterMap_statement?_ofPhrase, ← statements, List.nil_append]
  split <;> rfl

/-- Blanks between a program and a text put the text in sequence, if its first token does not
continue an expression. A text that is refused is refused for its own reasons only. Otherwise its
statements come behind those of the program, and its value is that of the whole, unless the program
fails or the text has no token. -/
theorem juxtaposition_is_sequence :
    (∀ errors, parse back = .error errors →
      parse (front ++ blanks ++ back) = .error errors ∧
        evaluate (front ++ blanks ++ back) = .error errors) ∧
    ∀ further, parse back = .ok further →
      parse (front ++ blanks ++ back) =
        .ok { statements := program.statements ++ further.statements } ∧
      ((∃ cause, evaluate front = .ok (some (.error cause))) ∨ tokenize back = [] →
        evaluate (front ++ blanks ++ back) = evaluate front) ∧
      (¬ ((∃ cause, evaluate front = .ok (some (.error cause))) ∨ tokenize back = []) →
        evaluate (front ++ blanks ++ back) = evaluate back) := by
  have whole := parse_append parsed nonempty blank separate
  constructor
  · intro errors refused
    rw [evaluate, whole, refused]
    exact ⟨rfl, rfl⟩
  intro further accepted
  rw [accepted] at whole
  have first : evaluate front = .ok program.result := by rw [evaluate, parsed, Except.map]
  have second : evaluate back = .ok further.result := by rw [evaluate, accepted, Except.map]
  have both : evaluate (front ++ blanks ++ back) =
      .ok (Program.result { statements := program.statements ++ further.statements }) := by
    rw [evaluate, whole]
    rfl
  obtain ⟨halts, goesOn⟩ := program.result_append further
  rw [first, second, both, ← statements_eq_nil_iff accepted]
  simp only [Except.ok.injEq]
  exact ⟨whole, halts, goesOn⟩

end Sequence

theorem juxtaposition_is_sequence_of_names :
    parse "x" = .ok { statements := [.identifier "x"] } ∧
      parse "sin" = .ok { statements := [.identifier "sin"] } ∧
      parse ("x" ++ "\n" ++ "sin") = .ok { statements := [.identifier "x", .identifier "sin"] } ∧
      evaluate ("x" ++ "\n" ++ "sin") = .ok (some (.error (.unknownIdentifier "x"))) := by
  have parsed : parse "x" = .ok { statements := [.identifier "x"] } := rfl
  have further : parse "sin" = .ok { statements := [.identifier "sin"] } := rfl
  have failed : evaluate "x" = .ok (some (.error (.unknownIdentifier "x"))) := rfl
  have nonempty : "\n" ≠ "" := by decide
  have blank : ∀ c ∈ "\n".toList, isBlank c = true :=
    List.forall_mem_singleton.mpr rfl
  have separate : ∀ token, (tokenize "sin").head? = some token →
      token ∉ [.plus, .minus, .star, .slash, .starStar, .leftParen] := by
    intro token first
    cases first
    nofun
  obtain ⟨sequence, halts, -⟩ :=
    (juxtaposition_is_sequence parsed nonempty blank separate).2 _ further
  exact ⟨parsed, further, sequence, (halts (.inl ⟨_, failed⟩)).trans failed⟩

end Calculator
