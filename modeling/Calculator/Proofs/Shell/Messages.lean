import Calculator.Proofs.Evaluation.Causes
import Calculator.Proofs.Parser.Diagnostics
import Calculator.Proofs.Printing.TokenTexts
import Calculator.Shell.Response

/-!
# Messages of one line

What a message quotes of a text is a token of it or the name of one, and no token has a blank in it.
So no message goes over the end of its line, whatever the text is.
-/

set_option autoImplicit false

namespace Calculator

/-!
## Texts of tokens
-/

private theorem isWordPart_of_mem_sign {negative : Bool} {c : Char}
    (member : c ∈ (if negative then "-" else "").toList) : isWordPart c = true := by
  cases negative with
  | true =>
      have minus : c = '-' := by simpa using member
      rw [minus]
      rfl
  | false => simp at member

/-- However a double is written, no character but those of numbers and names is needed. -/
theorem Binary64.isWordPart_of_mem_text {decimal : Nat → Nat → Decimal} {number : Binary64}
    {c : Char} (member : c ∈ (number.text decimal).toList) : isWordPart c = true := by
  cases number with
  | nan =>
      have inside : "NaN".toList.all isWordPart = true := by decide
      exact List.all_eq_true.mp inside c member
  | infinite negative =>
      have inside : "inf".toList.all isWordPart = true := by decide
      rw [text, String.toList_append] at member
      rcases List.mem_append.mp member with sign | name
      · exact isWordPart_of_mem_sign sign
      · exact List.all_eq_true.mp inside c name
  | finite negative mantissa shift =>
      rw [text, String.toList_append, Decimal.toList_text] at member
      rcases List.mem_append.mp member with sign | spelled
      · exact isWordPart_of_mem_sign sign
      · exact Token.isWordPart_of_mem_numeral (Decimal.isPlain_numeral _).isProper spelled

/-- The text of a token of a text has no blank in it. -/
theorem Token.isBlank_eq_false_of_mem_text {source : String} {token : Token}
    (member : token ∈ tokenize source) {c : Char} (inside : c ∈ token.text.toList) :
    isBlank c = false := by
  obtain ⟨rest, lexeme, begins⟩ := exists_begins_of_mem member
  cases begins with
  | longest _ _ _ stands =>
      cases id stands with
      | number => exact isBlank_eq_false_of_isWordPart (Binary64.isWordPart_of_mem_text inside)
      | name matched =>
          rw [text, String.toList_ofList] at inside
          exact isBlank_eq_false_of_mem_lexeme stands inside
      | symbol listed =>
          rw [text_of_mem_symbols listed] at inside
          exact isBlank_eq_false_of_mem_lexeme stands inside
  | illegal _ visible =>
      rw [text, String.toList_ofList] at inside
      rw [List.mem_singleton.mp inside]
      exact visible

/-!
## Names in trees
-/

namespace Phrase

variable {name : String}

/-- The comma in front of the first argument is all that a list of arguments lacks. -/
theorem identifier_mem_argumentTokens {arguments : List Phrase}
    (member : .identifier name ∈ furtherTokens arguments) :
    .identifier name ∈ argumentTokens arguments := by
  cases arguments with
  | nil => cases member
  | cons argument arguments => simpa [furtherTokens, argumentTokens] using member

mutual

/-- The names in the tree of a phrase are among its tokens. -/
theorem identifier_mem_tokens :
    (phrase : Phrase) → .identifier name ∈ phrase.tree.postorder →
      .identifier name ∈ phrase.tokens
  | .number _, member => by simp [tree, Expr.postorder] at member
  | .identifier _, member => by simpa [tree, Expr.postorder, tokens] using member
  | .group inner, member => by simp [tokens, identifier_mem_tokens inner member]
  | .signed _ operand, member => by
      have below : .identifier name ∈ operand.tree.postorder := by
        simpa [tree, Expr.postorder] using member
      simp [tokens, identifier_mem_tokens operand below]
  | .binary left _ right, member => by
      have below : .identifier name ∈ left.tree.postorder ∨
          .identifier name ∈ right.tree.postorder := by
        simpa [tree, Expr.postorder] using member
      rcases below with member | member
      · simp [tokens, identifier_mem_tokens left member]
      · simp [tokens, identifier_mem_tokens right member]
  | .call function arguments, member => by
      have below : .identifier name ∈ function.tree.postorder ∨
          .identifier name ∈ Expr.postorders (trees arguments) := by
        simpa [tree, Expr.postorder] using member
      rcases below with member | member
      · simp [tokens, identifier_mem_tokens function member]
      · have further := identifier_mem_furtherTokens arguments member
        simp [tokens, identifier_mem_argumentTokens further]

theorem identifier_mem_furtherTokens :
    (arguments : List Phrase) → .identifier name ∈ Expr.postorders (trees arguments) →
      .identifier name ∈ furtherTokens arguments
  | [], member => by simp [trees, Expr.postorders] at member
  | argument :: arguments, member => by
      have below : .identifier name ∈ argument.tree.postorder ∨
          .identifier name ∈ Expr.postorders (trees arguments) := by
        simpa [trees, Expr.postorders] using member
      rcases below with member | member
      · simp [furtherTokens, identifier_mem_tokens argument member]
      · simp [furtherTokens, identifier_mem_furtherTokens arguments member]

end

end Phrase

namespace Shell

/-!
## Texts within a line
-/

theorem isBlank_of_isLineEnd {c : Char} (ends : isLineEnd c = true) : isBlank c = true := by
  simp only [isLineEnd, Bool.or_eq_true, beq_iff_eq] at ends
  rcases ends with rfl | rfl <;> decide

/-- A text that does not go over the end of a line. -/
def StaysInLine (text : String) : Prop :=
  ∀ c ∈ text.toList, isLineEnd c = false

namespace StaysInLine

theorem ofList {text : List Char} (inside : text.any isLineEnd = false) :
    StaysInLine (String.ofList text) := by
  rw [StaysInLine, String.toList_ofList]
  exact fun c member => Bool.eq_false_iff.mpr (List.any_eq_false.mp inside c member)

theorem of_visible {text : String} (visible : ∀ c ∈ text.toList, isBlank c = false) :
    StaysInLine text := by
  intro c member
  rw [Bool.eq_false_iff]
  intro ends
  cases (isBlank_of_isLineEnd ends).symm.trans (visible c member)

theorem append {front back : String} (first : StaysInLine front) (second : StaysInLine back) :
    StaysInLine (front ++ back) := by
  rw [StaysInLine, String.toList_append]
  exact List.forall_mem_append.mpr ⟨first, second⟩

theorem intercalate {separator : String} (separates : StaysInLine separator) {texts : List String}
    (inside : ∀ text ∈ texts, StaysInLine text) :
    StaysInLine (separator.intercalate texts) := by
  induction texts with
  | nil => simp [StaysInLine]
  | cons text texts ih =>
      obtain ⟨first, further⟩ := List.forall_mem_cons.mp inside
      cases texts with
      | nil => simpa using first
      | cons next texts =>
          rw [String.intercalate_cons_cons]
          exact .append (.append first separates) (ih further)

theorem repr (number : Nat) : StaysInLine number.repr := by
  refine of_visible fun c member => ?_
  rw [Nat.toList_repr] at member
  exact Token.isBlank_eq_false_of_isWordPart
    (Token.isWordPart_of_isDigit (Decimal.isDigit_of_mem_toDigits member))

theorem number (value : Float) : StaysInLine (Value.number value).text :=
  of_visible fun _ member =>
    Token.isBlank_eq_false_of_isWordPart (Binary64.isWordPart_of_mem_text member)

theorem token {source : String} {token : Token} (member : token ∈ tokenize source) :
    StaysInLine token.text :=
  of_visible fun _ inside => token.isBlank_eq_false_of_mem_text member inside

theorem sign (sign : Sign) : StaysInLine sign.text := by
  cases sign <;> exact ofList rfl

theorem operator (operator : Operator) : StaysInLine operator.text := by
  cases operator <;> exact ofList rfl

theorem type (type : ValueType) : StaysInLine type.text := by
  cases type <;> exact ofList rfl

theorem name (function : Builtin) : StaysInLine function.name := by
  cases function <;> exact ofList rfl

theorem operation {front : String} (first : StaysInLine front) (left : ValueType)
    (operator : Operator) (right : ValueType) :
    StaysInLine (front ++ left.text ++ " " ++ operator.text ++ " " ++ right.text) := by
  have leftOperand : StaysInLine (front ++ left.text ++ " ") :=
    .append (.append first (.type left)) (.ofList rfl)
  exact .append (.append (.append leftOperand (.operator operator)) (.ofList rfl)) (.type right)

end StaysInLine

/-!
## Diagnostics
-/

/-- The wording of a diagnostic stays in its line, so only what is quoted could go over the end. -/
theorem staysInLine_diagnostic {error : ParseError}
    (quoted : ∀ text ∈ error.quoted, StaysInLine text) : StaysInLine error.message := by
  cases error with
  | noExpression token | noOperator token =>
      have inside := quoted token List.mem_cons_self
      exact .append (.append (.ofList rfl) inside) (.ofList rfl)
  | unexpected expected found =>
      have first := quoted expected List.mem_cons_self
      have second := quoted found (List.mem_cons_of_mem _ List.mem_cons_self)
      have front : StaysInLine ("expected next token to be " ++ expected ++ ", got ") :=
        .append (.append (.ofList rfl) first) (.ofList rfl)
      exact .append (.append front second) (.ofList rfl)
  | illegal text => exact .append (.ofList rfl) (quoted text List.mem_cons_self)
  | tooDeep limit => exact .append (.ofList rfl) (.repr limit)

/-- A diagnostic quotes tokens of the text, or names what it misses there. -/
theorem exists_token_of_quoted {source text : String} {error : ParseError}
    (recorded : error ∈ diagnostics source) (quoted : text ∈ error.quoted) :
    ∃ token, (token ∈ tokenize source ∨ token ∈ [.endOfInput, .rightParen]) ∧
      text = token.text := by
  rcases exists_token_of_diagnostic recorded with same | ⟨token, among, cause⟩
  · rw [same] at quoted
    cases quoted
  · have seen : token ∈ tokenize source ∨ token ∈ [.endOfInput, .rightParen] :=
      among.imp_right fun ended => by simp [ended]
    rcases cause with ⟨same, -⟩ | same
    · rw [same, Token.quoted_refusal, List.mem_singleton] at quoted
      exact ⟨token, seen, quoted⟩
    · rw [same, ParseError.quoted] at quoted
      rcases List.mem_pair.mp quoted with closing | found
      · exact ⟨.rightParen, .inr (by simp), closing⟩
      · exact ⟨token, seen, found⟩

theorem staysInLine_of_mem_diagnostics {source : String} {error : ParseError}
    (recorded : error ∈ diagnostics source) : StaysInLine error.message := by
  refine staysInLine_diagnostic fun text quoted => ?_
  obtain ⟨token, among, rfl⟩ := exists_token_of_quoted recorded quoted
  rcases among with member | missing
  · exact .token member
  · have fixed : ∀ token ∈ [Token.endOfInput, .rightParen], StaysInLine token.text := by
      simp only [List.forall_mem_cons]
      exact ⟨.ofList rfl, .ofList rfl, nofun⟩
    exact fixed token missing

/-!
## Failures
-/

private theorem staysInLine_of_canFailWith {tree : Expr} {cause : EvalError}
    (fails : tree.CanFailWith cause)
    (names : ∀ name, .identifier name ∈ tree.postorder → StaysInLine name) :
    StaysInLine cause.message := by
  cases fails with
  | unknownIdentifier inside => exact .append (.ofList rfl) (names _ inside)
  | @unknownSign sign =>
      exact .append (.append (.ofList rfl) (.sign sign)) (.type .builtin)
  | @unknownOperator _ operator =>
      exact .operation (.ofList rfl) .builtin operator .builtin
  | @typeMismatch _ operator _ leftType rightType =>
      exact .operation (.ofList rfl) leftType operator rightType
  | divisionByZero => exact .ofList rfl
  | @argumentCount _ arguments builtin =>
      have noun (count : Nat) :
          StaysInLine (if count = 1 then " argument. got=" else " arguments. got=") := by
        split
        · exact .ofList rfl
        · exact .ofList rfl
      have accepted : StaysInLine (builtin.name ++ " accepts " ++ builtin.arity.repr) :=
        .append (.append (.name builtin) (.ofList rfl)) (.repr builtin.arity)
      exact .append (.append accepted (noun _)) (.repr arguments.length)
  | @expectedNumbers _ _ found builtin =>
      have types : StaysInLine (" and ".intercalate (found.map ValueType.text)) :=
        .intercalate (.ofList rfl) (List.forall_mem_map.mpr fun type _ => .type type)
      exact .append (.append (.name builtin) (.ofList rfl)) types
  | notCallable => exact .append (.ofList rfl) (.type .number)

/-- The cause of a failure names nothing but functions, types and tokens of the text. -/
theorem staysInLine_of_failure {source : String} {program : Program} {statement : Expr}
    {cause : EvalError} (parsed : parse source = .ok program)
    (member : statement ∈ program.statements) (failed : statement.value = .error cause) :
    StaysInLine cause.message := by
  obtain ⟨phrases, split, -, statements⟩ := exists_splits_of_parse parsed
  rw [statements] at member
  obtain ⟨phrase, among, rfl⟩ := List.mem_map.mp member
  refine staysInLine_of_canFailWith (Expr.canFailWith_of_value failed) fun name inside => ?_
  have token : .identifier name ∈ tokenize source := by
    rw [← split.spelled]
    exact List.mem_flatMap.mpr ⟨phrase, among, phrase.identifier_mem_tokens inside⟩
  exact .token token

end Shell

end Calculator
