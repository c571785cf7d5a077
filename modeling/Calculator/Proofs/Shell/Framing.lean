import Calculator.Proofs.Evaluation.Ending
import Calculator.Proofs.Juxtaposition
import Calculator.Proofs.Number.Hundredths
import Calculator.Proofs.Shell.Messages
import Calculator.Proofs.Text.Lines

/-!
# The lines of an answer

An answer has a line for every diagnostic of the text, or else a single line that tells what the
program came to. The first character of a line tells which kind of line it is, so no line can be
taken for one of another kind.
-/

set_option autoImplicit false

namespace Calculator.Shell

/-!
## Kinds of lines
-/

inductive LineKind where
  | diagnostic
  | nothing
  | builtin
  | failure
  | number
deriving DecidableEq, Repr

namespace LineKind

/-- The lines of each kind, without their ends. A number is written to the hundredth, unless it is
infinite or no number at all. -/
inductive Shows : LineKind → String → Prop where
  | diagnostic {message} : Shows .diagnostic ("\t" ++ message)
  | nothing : Shows .nothing "nil"
  | builtin : Shows .builtin "Builtin Function"
  | failure {message} : Shows .failure ("ERROR: " ++ message)
  | notNumber : Shows .number "NaN"
  | infinite {negative : Bool} : Shows .number ((if negative then "-" else "") ++ "inf")
  | hundredths {negative : Bool} {digits : List Char} {whole : Nat} {tens ones : Char} :
      WritesWhole digits whole → tens.isDigit = true → ones.isDigit = true →
      Shows .number ((if negative then "-" else "") ++ String.ofList (digits ++ ['.', tens, ones]))

/-- The kind of a line, told by its first character. -/
def ofFirst : Char → LineKind
  | '\t' => .diagnostic
  | 'n' => .nothing
  | 'B' => .builtin
  | 'E' => .failure
  | _ => .number

private theorem ofFirst_of_isDigit {c : Char} (digit : c.isDigit = true) : ofFirst c = .number := by
  unfold ofFirst
  split
  case h_5 => rfl
  all_goals cases digit

variable {kind other : LineKind} {line : String}

theorem Shows.exists_first (shows : kind.Shows line) :
    ∃ c tail, line.toList = c :: tail ∧ ofFirst c = kind := by
  cases shows with
  | diagnostic => exact ⟨'\t', _, String.toList_append, rfl⟩
  | nothing => exact ⟨'n', _, rfl, rfl⟩
  | builtin => exact ⟨'B', _, rfl, rfl⟩
  | failure => exact ⟨'E', _, String.toList_append, rfl⟩
  | notNumber => exact ⟨'N', _, rfl, rfl⟩
  | @infinite negative =>
      cases negative with
      | true => exact ⟨'-', _, rfl, rfl⟩
      | false => exact ⟨'i', _, rfl, rfl⟩
  | @hundredths negative digits whole tens ones writes =>
      cases negative with
      | true => exact ⟨'-', _, String.toList_append, rfl⟩
      | false =>
          obtain ⟨c, tail, rfl⟩ := List.exists_cons_of_ne_nil writes.nonempty
          have digit := writes.inside c List.mem_cons_self
          exact ⟨c, tail ++ ['.', tens, ones], by simp, ofFirst_of_isDigit digit⟩

theorem Shows.unique (shows : kind.Shows line) (also : other.Shows line) : kind = other := by
  obtain ⟨c, tail, whole, rfl⟩ := shows.exists_first
  obtain ⟨d, rest, same, rfl⟩ := also.exists_first
  rw [(List.cons.inj (whole.symm.trans same)).1]

theorem Shows.nonempty (shows : kind.Shows line) : line ≠ "" := by
  rintro rfl
  obtain ⟨c, tail, whole, -⟩ := shows.exists_first
  cases whole

private theorem shows_number (value : Float) : LineKind.number.Shows (Value.number value).text := by
  show LineKind.number.Shows ((Binary64.ofFloat value).text Calculator.hundredths)
  cases Binary64.ofFloat value with
  | nan => exact .notNumber
  | infinite negative => exact .infinite
  | finite negative mantissa shift =>
      obtain ⟨tens, ones, tensDigit, onesDigit, -, written⟩ :=
        exists_toList_text (Calculator.hundredths mantissa shift).coefficient
      have text : (Calculator.hundredths mantissa shift).text =
          String.ofList (Nat.toDigits 10 ((Calculator.hundredths mantissa shift).coefficient / 100) ++
            ['.', tens, ones]) := by
        rw [← written, String.ofList_toList]
        rfl
      rw [Binary64.text, text]
      exact .hundredths (toDigits_writesWhole _) tensDigit onesDigit

/-- What a program comes to if it is answered with a line of this kind. -/
def Answers (program : Program) : LineKind → Prop
  | .diagnostic => False
  | .nothing => program.statements = []
  | .builtin => ∃ function, program.EndsWith (.builtin function)
  | .failure => program.Fails
  | .number => ∃ value, program.EndsWith (.number value)

theorem exists_answers (program : Program) : ∃ kind, Answers program kind := by
  rcases program.cases_end with empty | fails | ⟨value, ends⟩
  · exact ⟨.nothing, empty⟩
  · exact ⟨.failure, fails⟩
  · cases value with
    | number value => exact ⟨.number, value, ends⟩
    | builtin function => exact ⟨.builtin, function, ends⟩
    | error => exact absurd rfl ends.type_ne_error

end LineKind

/-!
## The answer to a program
-/

/-- The line with which a program is answered, without its end. -/
def answerLine (program : Program) : String :=
  (program.result.map Value.text).getD "nil"

variable {source : String} {program : Program}

theorem answerLine_shows {kind : LineKind} (answers : LineKind.Answers program kind) :
    kind.Shows (answerLine program) := by
  rw [answerLine]
  cases kind with
  | diagnostic => cases answers
  | nothing =>
      rw [Program.result_eq_none_iff.mpr answers]
      exact .nothing
  | builtin =>
      obtain ⟨function, ends⟩ := answers
      rw [ends.result_eq]
      exact .builtin
  | failure =>
      obtain ⟨statement, -, cause, -, result⟩ := Program.Fails.exists_result answers
      rw [result]
      exact .failure
  | number =>
      obtain ⟨value, ends⟩ := answers
      rw [ends.result_eq]
      exact LineKind.shows_number value

/-- The line shows what the program comes to. -/
theorem answerLine_shows_iff {kind : LineKind} :
    kind.Shows (answerLine program) ↔ LineKind.Answers program kind := by
  refine ⟨fun shows => ?_, answerLine_shows⟩
  obtain ⟨other, answers⟩ := LineKind.exists_answers program
  rwa [shows.unique (answerLine_shows answers)]

private theorem staysInLine_answerLine (parsed : parse source = .ok program) :
    StaysInLine (answerLine program) := by
  rw [answerLine]
  rcases program.cases_end with empty | fails | ⟨value, ends⟩
  · rw [Program.result_eq_none_iff.mpr empty]
    exact .ofList rfl
  · obtain ⟨statement, member, cause, failed, result⟩ := fails.exists_result
    rw [result]
    exact .append (.ofList rfl) (staysInLine_of_failure parsed member failed)
  · rw [ends.result_eq]
    cases value with
    | number value => exact .number value
    | builtin => exact .ofList rfl
    | error => exact absurd rfl ends.type_ne_error

theorem response_of_parse (parsed : parse source = .ok program) :
    response source = answerLine program ++ "\n" := by
  rw [response, evaluate, parsed, answerLine]
  dsimp only [Except.map]
  cases program.result <;> rfl

theorem response_eq_nil_iff : response source = "nil\n" ↔ tokenize source = [] := by
  constructor
  · intro nothing
    cases parsed : parse source with
    | error errors =>
        rw [response, evaluate, parsed] at nothing
        have symbols := congrArg String.toList nothing
        cases errors with
        | nil => simp [Except.map] at symbols
        | cons error errors => simp [Except.map, String.join_cons] at symbols
    | ok program =>
        rw [response_of_parse parsed] at nothing
        have same : answerLine program = "nil" := (String.append_left_inj "\n").mp nothing
        have shows : LineKind.nothing.Shows (answerLine program) := same ▸ .nothing
        exact (statements_eq_nil_iff parsed).mp (answerLine_shows_iff.mp shows)
  · intro blank
    rw [response, evaluate, parse, Parser.ofSource, blank]
    rfl

/-!
## Whole answers
-/

/-- A text that is cut into these lines when their ends are added, each of at least one character. -/
structure Framed (text : String) (lines : List String) : Prop where
  cut : Text.LineCut (· == '\n') text.toList (lines.map fun line => line.toList ++ ['\n'])
  nonempty : lines ≠ []
  inside : ∀ line ∈ lines, line ≠ "" ∧ StaysInLine line

theorem lineCut_join {lines : List String} (inside : ∀ line ∈ lines, StaysInLine line) :
    Text.LineCut (· == '\n') (String.join (lines.map (· ++ "\n"))).toList
      (lines.map fun line => line.toList ++ ['\n']) := by
  induction lines with
  | nil => exact .nil
  | cons line lines ih =>
      obtain ⟨first, further⟩ := List.forall_mem_cons.mp inside
      have whole : (String.join ((line :: lines).map (· ++ "\n"))).toList =
          line.toList ++ '\n' :: (String.join (lines.map (· ++ "\n"))).toList := by
        simp [String.join_cons]
      rw [whole, List.map_cons]
      refine .finished (fun c member => ?_) rfl (ih further)
      exact (Bool.or_eq_false_iff.mp (first c member)).1

private theorem framed_of_parse (parsed : parse source = .ok program) :
    Framed (response source) [answerLine program] := by
  have stays := staysInLine_answerLine parsed
  obtain ⟨kind, answers⟩ := LineKind.exists_answers program
  have nonempty := (answerLine_shows answers).nonempty
  refine ⟨?_, List.cons_ne_nil _ _, List.forall_mem_singleton.mpr ⟨nonempty, stays⟩⟩
  have single : response source = String.join ([answerLine program].map (· ++ "\n")) := by
    rw [response_of_parse parsed]
    simp
  rw [single]
  exact lineCut_join (List.forall_mem_singleton.mpr stays)

private theorem framed_of_errors {errors : List ParseError}
    (refused : parse source = .error errors) :
    Framed (response source) (errors.map fun error => "\t" ++ error.message) := by
  obtain ⟨rfl, recorded⟩ := diagnostics_of_parse refused
  have stays : ∀ line ∈ (diagnostics source).map fun error => "\t" ++ error.message,
      StaysInLine line :=
    List.forall_mem_map.mpr fun error recorded =>
      .append (.ofList rfl) (staysInLine_of_mem_diagnostics recorded)
  have whole : response source = String.join
      (((diagnostics source).map fun error => "\t" ++ error.message).map (· ++ "\n")) := by
    rw [response, evaluate, refused, List.map_map]
    rfl
  refine ⟨?_, ?_, ?_⟩
  · rw [whole]
    exact lineCut_join stays
  · exact fun empty => recorded (List.map_eq_nil_iff.mp empty)
  · intro line member
    refine ⟨?_, stays line member⟩
    obtain ⟨error, -, rfl⟩ := List.mem_map.mp member
    exact LineKind.Shows.diagnostic.nonempty

/-- Every answer is cut into lines that are not empty and have no end of a line within them. A text
that is refused has a line for each of its diagnostics, behind a tab. A program is answered with one
line: `nil` exactly if the text has no token, and otherwise a line that tells whether a statement
failed, or else whether the last one is a function or a number. No line is of two kinds. -/
theorem answers_are_framed :
    (∀ kind other line, LineKind.Shows kind line → LineKind.Shows other line → kind = other) ∧
    ∀ source, ∃ lines, Framed (response source) lines ∧
      (∀ errors, parse source = .error errors →
        lines.length = errors.length ∧ ∀ line ∈ lines, LineKind.diagnostic.Shows line) ∧
      ∀ program, parse source = .ok program →
        ∃ line, lines = [line] ∧
          (∃ kind, kind ≠ .diagnostic ∧ LineKind.Shows kind line) ∧
          (LineKind.nothing.Shows line ↔ tokenize source = []) ∧
          (LineKind.builtin.Shows line ↔ ∃ function, program.EndsWith (.builtin function)) ∧
          (LineKind.failure.Shows line ↔ program.Fails) ∧
          (LineKind.number.Shows line ↔ ∃ value, program.EndsWith (.number value)) ∧
          (program.Fails ↔ ∃ cause, evaluate source = .ok (some (.error cause))) ∧
          ∀ value, evaluate source = .ok (some value) → line = value.text := by
  refine ⟨fun _ _ _ shows also => shows.unique also, fun source => ?_⟩
  cases parsed : parse source with
  | error errors =>
      refine ⟨_, framed_of_errors parsed, ?_, nofun⟩
      rintro _ ⟨⟩
      exact ⟨List.length_map _, List.forall_mem_map.mpr fun _ _ => .diagnostic⟩
  | ok program =>
      refine ⟨_, framed_of_parse parsed, nofun, ?_⟩
      rintro _ ⟨⟩
      obtain ⟨kind, answers⟩ := LineKind.exists_answers program
      have evaluated : evaluate source = .ok program.result := by
        rw [evaluate, parsed, Except.map]
      refine ⟨_, rfl, ⟨kind, ?_, answerLine_shows answers⟩, ?_, answerLine_shows_iff,
        answerLine_shows_iff, answerLine_shows_iff, ?_, ?_⟩
      · rintro rfl
        exact answers
      · rw [← statements_eq_nil_iff parsed]
        exact answerLine_shows_iff
      · rw [Program.fails_iff, evaluated]
        simp only [Except.ok.injEq]
      · intro value same
        rw [answerLine, Except.ok.inj (evaluated.symm.trans same), Option.map_some, Option.getD_some]

end Calculator.Shell
