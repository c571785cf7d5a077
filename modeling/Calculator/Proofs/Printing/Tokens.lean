import Calculator.Proofs.Number.Reading
import Calculator.Proofs.Printing.Phrase
import Calculator.Proofs.Token.Munch

/-!
# The tokens of a printed tree

The text of a tree is cut into the tokens of its printed phrase. Words are the numbers and names in
it; whatever stands behind a word is a space, a comma or a parenthesis, none of which continues it.
-/

set_option autoImplicit false

namespace Calculator

open Token (stream next stream_eq_cons stream_blank)

/-!
## Words
-/

def continuesWord (c : Char) : Bool :=
  isNamePart c || c == '.'

private theorem StopsAt.name {rest : List Char} (stops : StopsAt continuesWord rest) :
    StopsAt isNamePart rest := by
  intro c head
  have ends := stops c head
  simp only [continuesWord, Bool.or_eq_false_iff] at ends
  exact ends.1

private theorem StopsAt.numeral {rest : List Char} (stops : StopsAt continuesWord rest) :
    StopsAt continuesNumeral rest := by
  intro c head
  have ends := stops c head
  simp only [continuesWord, continuesNumeral, isNamePart, Char.isAlphanum, Bool.or_eq_false_iff,
    beq_eq_false_iff_ne] at ends ⊢
  obtain ⟨⟨⟨letter, digit⟩, -⟩, point⟩ := ends
  refine ⟨⟨⟨digit, point⟩, ?_⟩, ?_⟩
  · rintro rfl
    cases letter
  · rintro rfl
    cases letter

/-- A text that is cut into the same tokens in front of whatever does not continue a word. -/
def Lexes (text : List Char) (tokens : List Token) : Prop :=
  ∀ ⦃rest : List Char⦄, StopsAt continuesWord rest →
    stream (text ++ rest) = tokens ++ stream rest

theorem lexes_name {name : String} (valid : IsName name) :
    Lexes name.toList [.identifier name] := by
  intro rest stops
  obtain ⟨first, tail, shape, start, parts⟩ := valid
  have named := Pattern.mem_name_iff.mpr ⟨first, tail, rfl, start, parts⟩
  have scanned : next (first :: tail ++ rest) = (.identifier name, rest) := by
    rw [Token.next_lexeme (.name named), Token.lex_name start parts, stops.name.takeWhile,
      stops.name.dropWhile, List.append_nil, ← shape, String.ofList_toList]
  rw [shape, stream_eq_cons scanned (by simp)]
  rfl

theorem lexes_number {value : Float} (unsigned : IsUnsigned value) :
    Lexes (shortestText value).toList [.number value] := by
  intro rest stops
  obtain ⟨numeral, plain, written, rfl⟩ := unsigned.exists_numeral
  have proper := plain.isProper
  have scanned : next (numeral.spelling ++ rest) = (.number numeral.toFloat, rest) := by
    rw [Token.next_lexeme (.number proper),
      Token.lex_spelling proper (Numeral.scan?_spelling proper stops.numeral)]
  rw [written, stream_eq_cons scanned (by simp)]
  rfl

/-!
## Symbols
-/

theorem stream_sign (sign : Sign) (rest : List Char) :
    stream (sign.char :: rest) = sign.token :: stream rest := by
  cases sign <;> exact stream_symbol _ rfl (by decide) rest

/-- The space behind an operator keeps two stars of different operators apart. -/
theorem stream_operator (operator : Operator) (rest : List Char) :
    stream (operator.text.toList ++ ' ' :: rest) = operator.token :: stream rest := by
  rw [← stream_blank (c := ' ') rfl rest]
  cases operator <;> exact stream_eq_cons rfl nofun

/-!
## Texts of trees
-/

namespace Expr

/-- Further arguments as they are printed, with a comma and a space in front of each. -/
def furtherText : List Expr → List Char
  | [] => []
  | argument :: arguments => ',' :: ' ' :: (argument.text.toList ++ furtherText arguments)

private theorem toList_appendArguments (written : String) (arguments : List Expr) :
    (appendArguments written arguments).toList = written.toList ++ furtherText arguments := by
  induction arguments generalizing written with
  | nil => simp [appendArguments, furtherText]
  | cons argument arguments ih => simp [appendArguments, furtherText, ih]

private theorem stopsAt_further (arguments : List Expr) (rest : List Char) :
    StopsAt continuesWord (furtherText arguments ++ ')' :: rest) := by
  cases arguments with
  | nil => exact stopsAt_cons rfl rest
  | cons argument arguments => exact stopsAt_cons rfl _

mutual

/-- The text of a tree is cut into the tokens of its printed phrase. -/
theorem lexes_text : (expr : Expr) → expr.Printable → Lexes expr.text.toList expr.phrase.tokens
  | .number _, printable => lexes_number printable
  | .identifier _, printable => lexes_name printable
  | .signed sign operand, printable => by
      intro rest _
      have inner := lexes_text operand printable (stopsAt_cons (c := ')') rfl rest)
      have spelled : (text (.signed sign operand)).toList ++ rest =
          '(' :: sign.char :: (operand.text.toList ++ ')' :: rest) := by
        simp [text, Sign.text]
      rw [spelled, stream_symbol '(' rfl (by decide), stream_sign, inner,
        stream_symbol ')' rfl (by decide)]
      simp [phrase, Phrase.tokens]
  | .binary left operator right, printable => by
      intro rest _
      have second := lexes_text right printable.2 (stopsAt_cons (c := ')') rfl rest)
      have first := lexes_text left printable.1 (stopsAt_cons (c := ' ') rfl
        (operator.text.toList ++ ' ' :: (right.text.toList ++ ')' :: rest)))
      have spelled : (text (.binary left operator right)).toList ++ rest =
          '(' :: (left.text.toList ++ ' ' :: (operator.text.toList ++
            ' ' :: (right.text.toList ++ ')' :: rest))) := by
        simp [text]
      rw [spelled, stream_symbol '(' rfl (by decide), first, stream_blank rfl, stream_operator,
        second, stream_symbol ')' rfl (by decide)]
      simp [phrase, Phrase.tokens]
  | .call function arguments, printable => by
      intro rest _
      have callee := lexes_text function printable.1 (stopsAt_cons (c := '(') rfl
        ((argumentsText arguments).toList ++ ')' :: rest))
      have spelled : (text (.call function arguments)).toList ++ rest =
          function.text.toList ++ '(' :: ((argumentsText arguments).toList ++ ')' :: rest) := by
        simp [text]
      rw [spelled, callee, stream_symbol '(' rfl (by decide),
        lexes_argumentsText arguments printable.2 rest]
      simp [phrase, Phrase.tokens]

theorem lexes_argumentsText : (arguments : List Expr) → AllPrintable arguments →
    ∀ rest, stream ((argumentsText arguments).toList ++ ')' :: rest) =
      Phrase.argumentTokens (phrases arguments) ++ .rightParen :: stream rest
  | [], _, rest => stream_symbol ')' rfl (by decide) rest
  | argument :: arguments, printable, rest => by
      have first := lexes_text argument printable.1 (stopsAt_further arguments rest)
      rw [argumentsText, toList_appendArguments, List.append_assoc, first,
        lexes_furtherText arguments printable.2 rest]
      simp [phrases, Phrase.argumentTokens]

theorem lexes_furtherText : (arguments : List Expr) → AllPrintable arguments →
    ∀ rest, stream (furtherText arguments ++ ')' :: rest) =
      Phrase.furtherTokens (phrases arguments) ++ .rightParen :: stream rest
  | [], _, rest => stream_symbol ')' rfl (by decide) rest
  | argument :: arguments, printable, rest => by
      have first := lexes_text argument printable.1 (stopsAt_further arguments rest)
      rw [furtherText, List.cons_append, List.cons_append, stream_symbol ',' rfl (by decide),
        stream_blank rfl, List.append_assoc, first, lexes_furtherText arguments printable.2 rest]
      simp [phrases, Phrase.furtherTokens]

end

theorem tokenize_text {expr : Expr} (printable : expr.Printable) :
    tokenize expr.text = expr.phrase.tokens := by
  have lexed : stream (expr.text.toList ++ []) = expr.phrase.tokens ++ stream [] :=
    expr.lexes_text printable nofun
  rw [List.append_nil] at lexed
  rw [tokenize_eq_stream, lexed]
  exact List.append_nil _

end Expr

end Calculator
