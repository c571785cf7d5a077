import Calculator.Proofs.Number.Reading
import Calculator.Proofs.Token.Munch

/-!
# The texts of tokens

A symbol, a name and an unsigned number are each read back from their own text, so the texts of such
tokens, with a space between each two of them, are cut into these very tokens.
-/

set_option autoImplicit false

namespace Calculator

namespace Token

/-- A token that its own text writes: an unsigned number, a name or a symbol. -/
inductive IsWritten : Token → Prop where
  | number {value} : IsUnsigned value → IsWritten (.number value)
  | name {name : String} : name.toList ∈ Pattern.name.matches' → IsWritten (.identifier name)
  | symbol {lexeme token} : (lexeme, token) ∈ symbols → IsWritten token

theorem text_of_mem_symbols {lexeme : List Char} {token : Token}
    (listed : (lexeme, token) ∈ symbols) : token.text.toList = lexeme := by
  have spelled : ∀ entry ∈ symbols, entry.2.text.toList = entry.1 := by simp [symbols, text]
  exact spelled (lexeme, token) listed

/-- The text of a token is a lexeme of this token. -/
theorem IsWritten.standsFor {token : Token} (written : token.IsWritten) :
    StandsFor token.text.toList token := by
  cases written with
  | number unsigned =>
      obtain ⟨numeral, plain, spelled, reads⟩ := unsigned.exists_numeral
      rw [text, spelled, ← reads]
      exact .number plain.isProper
  | @name name matched =>
      have stands := StandsFor.name matched
      rw [String.ofList_toList] at stands
      exact stands
  | symbol listed =>
      rw [text_of_mem_symbols listed]
      exact .symbol listed

private theorem stream_intercalate {tokens : List Token}
    (written : ∀ token ∈ tokens, token.IsWritten) :
    stream (List.intercalate [' '] (tokens.map fun token => token.text.toList)) = tokens := by
  induction tokens with
  | nil => rfl
  | cons token tokens ih =>
      obtain ⟨first, further⟩ := List.forall_mem_cons.mp written
      have alone := stream_lexeme first.standsFor
      cases tokens with
      | nil => simpa using alone
      | cons next tokens =>
          have behind := ih further
          rw [List.map_cons] at behind
          rw [List.map_cons, List.map_cons, List.intercalate_cons_cons, List.append_assoc,
            List.singleton_append, stream_append rfl, alone, behind]
          rfl

end Token

/-- The texts of tokens, with single spaces between them, are cut into the same tokens, and the end of
input comes behind them for ever. Their numbers are the same doubles, and not only equal ones. -/
theorem joined_texts_give_tokens_back (tokens : List Token)
    (written : ∀ token ∈ tokens, token.IsWritten) :
    tokenize (String.intercalate " " (tokens.map Token.text)) = tokens ∧
      ∀ count, Token.nth (String.intercalate " " (tokens.map Token.text)).toList count =
        tokens.getD count .endOfInput := by
  have joined : tokenize (String.intercalate " " (tokens.map Token.text)) = tokens := by
    rw [tokenize_eq_stream, String.toList_intercalate, List.map_map]
    exact Token.stream_intercalate written
  refine ⟨joined, fun count => ?_⟩
  rw [nth_eq_getD, joined]

/-- The least positive double has a text of more than three hundred digits. -/
theorem joined_texts_give_tokens_back_least :
    (∀ token ∈ [Token.star, .starStar, .identifier "e5", .number (Float.ofBits 1), .comma],
      token.IsWritten) ∧
    tokenize (String.intercalate " "
      ([Token.star, .starStar, .identifier "e5", .number (Float.ofBits 1), .comma].map
        Token.text)) =
      [.star, .starStar, .identifier "e5", .number (Float.ofBits 1), .comma] := by
  have name : "e5".toList ∈ Pattern.name.matches' :=
    Pattern.mem_name_iff.mpr ⟨'e', ['5'], rfl, rfl, List.forall_mem_singleton.mpr rfl⟩
  have least : IsUnsigned (Float.ofBits 1) := ⟨by decide +kernel, by decide +kernel⟩
  have star : (['*'], Token.star) ∈ symbols := by simp [symbols]
  have starStar : (['*', '*'], Token.starStar) ∈ symbols := by simp [symbols]
  have comma : ([','], Token.comma) ∈ symbols := by simp [symbols]
  have written :
      ∀ token ∈ [Token.star, .starStar, .identifier "e5", .number (Float.ofBits 1), .comma],
        token.IsWritten := by
    simp only [List.forall_mem_cons]
    exact ⟨.symbol star, .symbol starStar, .name name, .number least, .symbol comma, by simp⟩
  exact ⟨written, (joined_texts_give_tokens_back _ written).1⟩

end Calculator
