import Calculator.Proofs.Token.Pattern
import Calculator.Proofs.Token.Stream

/-!
# Reading one lexeme

How the lexer reads a text that begins with a lexeme: alone, it is read as the token it stands for;
in front of other characters, what is read is at least as long. Blanks are part of no lexeme.
-/

set_option autoImplicit false

namespace Calculator

/-!
## First characters
-/

def isSymbol (c : Char) : Bool :=
  symbols.any fun entry => entry.1.head? == some c

/-- The characters of numbers and names. -/
def isWordPart (c : Char) : Bool :=
  isNamePart c || c == '.' || c == '+' || c == '-'

theorem isSymbol_iff {c : Char} :
    isSymbol c = true ↔ ∃ lexeme token, (lexeme, token) ∈ symbols ∧ lexeme.head? = some c := by
  simp [isSymbol]

theorem isSymbol_cases {c : Char} (symbol : isSymbol c = true) :
    c = '+' ∨ c = '-' ∨ c = '*' ∨ c = '/' ∨ c = '(' ∨ c = ')' ∨ c = ',' := by
  simp only [isSymbol, symbols, List.any_cons, List.any_nil, List.head?_cons, Bool.or_eq_true,
    beq_iff_eq, Option.some.injEq, Bool.false_eq_true, or_false] at symbol
  rcases symbol with rfl | rfl | rfl | rfl | rfl | rfl | rfl | rfl <;> simp

namespace Token

theorem isSymbol_eq_false_of_isNamePart {c : Char} (part : isNamePart c = true) :
    isSymbol c = false := by
  rw [Bool.eq_false_iff]
  intro symbol
  rcases isSymbol_cases symbol with rfl | rfl | rfl | rfl | rfl | rfl | rfl <;> cases part

theorem not_isBlank_of_isNamePart {c : Char} (part : isNamePart c = true) :
    ¬ isBlank c = true := by
  intro blank
  simp only [isBlank, Bool.or_eq_true, beq_iff_eq] at blank
  rcases blank with (((rfl | rfl) | rfl) | rfl) | rfl <;> cases part

theorem isWordPart_of_isNamePart {c : Char} (part : isNamePart c = true) :
    isWordPart c = true := by
  simp [isWordPart, part]

theorem isWordPart_of_isDigit {c : Char} (digit : c.isDigit = true) : isWordPart c = true :=
  isWordPart_of_isNamePart (by simp [isNamePart, Char.isAlphanum, digit])

theorem isBlank_eq_false_of_isWordPart {c : Char} (part : isWordPart c = true) :
    isBlank c = false := by
  simp only [isWordPart, Bool.or_eq_true, beq_iff_eq] at part
  rcases part with ((part | rfl) | rfl) | rfl
  · exact Bool.eq_false_iff.mpr (not_isBlank_of_isNamePart part)
  all_goals rfl

private theorem not_isNameStart_of_isDigit {c : Char} (digit : c.isDigit = true) :
    ¬ isNameStart c = true := by
  intro start
  have small : c.toNat ≤ '9'.toNat := (Char.isDigit_iff_toNat.mp digit).2
  have large : 'A'.toNat ≤ c.toNat := by
    rcases Bool.or_eq_true_iff.mp start with letter | underscore
    · rcases Bool.or_eq_true_iff.mp letter with upper | lower
      · exact (of_decide_eq_true upper).1
      · have above := of_decide_eq_true (Bool.and_eq_true_iff.mp lower).1
        exact Nat.le_trans (by decide) above
    · rw [eq_of_beq underscore]
      decide
  exact absurd (Nat.le_trans large small) (by decide)

theorem lex_of_not_isSymbol {c : Char} (other : isSymbol c = false) (text : List Char) :
    lex (c :: text) =
      if isNameStart c then
        (.identifier (String.ofList ((c :: text).takeWhile isNamePart)),
          (c :: text).dropWhile isNamePart)
      else
        match Numeral.scan? (c :: text) with
        | some (numeral, after) => (.number numeral.toFloat, after)
        | none => (.illegal (String.ofList [c]), text) := by
  unfold lex
  split
  case h_10 shape =>
      cases shape
      rfl
  all_goals
    rename_i shape
    cases shape
  all_goals cases other

/-!
## Lexemes in front of a text
-/

variable {lexeme rest : List Char} {token : Token}

theorem spelling_eq_cons {numeral : Numeral} (proper : numeral.IsProper) :
    ∃ c tail, numeral.spelling = c :: tail ∧ isSymbol c = false ∧ ¬ isNameStart c = true ∧
      ¬ isBlank c = true := by
  obtain ⟨whole, fraction, exponent⟩ := numeral
  cases whole with
  | cons c whole =>
      have digit : c.isDigit = true := proper.whole c List.mem_cons_self
      have part : isNamePart c = true := by simp [isNamePart, Char.isAlphanum, digit]
      exact ⟨c, _, rfl, isSymbol_eq_false_of_isNamePart part, not_isNameStart_of_isDigit digit,
        not_isBlank_of_isNamePart part⟩
  | nil =>
      cases fraction with
      | none => exact absurd rfl (proper.nonempty.resolve_left (· rfl))
      | some places => exact ⟨'.', _, rfl, rfl, by decide, by decide⟩

theorem lex_spelling {numeral found : Numeral} {after : List Char} (proper : numeral.IsProper)
    (scanned : Numeral.scan? (numeral.spelling ++ rest) = some (found, after)) :
    lex (numeral.spelling ++ rest) = (.number found.toFloat, after) := by
  obtain ⟨c, tail, shape, other, letter, -⟩ := spelling_eq_cons proper
  rw [shape, List.cons_append] at scanned ⊢
  rw [lex_of_not_isSymbol other, if_neg letter, scanned]

theorem lex_name {first : Char} {tail : List Char} (start : isNameStart first = true)
    (parts : ∀ c ∈ tail, isNamePart c = true) (rest : List Char) :
    lex (first :: tail ++ rest) =
      (.identifier (String.ofList (first :: tail ++ rest.takeWhile isNamePart)),
        rest.dropWhile isNamePart) := by
  have inside : ∀ c ∈ first :: tail, isNamePart c = true :=
    List.forall_mem_cons.mpr ⟨isNamePart_of_isNameStart start, parts⟩
  have other := isSymbol_eq_false_of_isNamePart (inside first List.mem_cons_self)
  rw [List.cons_append, lex_of_not_isSymbol other, if_pos start, ← List.cons_append,
    List.takeWhile_append_of_pos inside, List.dropWhile_append_of_pos inside]

private theorem length_lex_star_le (rest : List Char) :
    (lex ('*' :: rest)).2.length ≤ rest.length := by
  by_cases second : ∃ tail, rest = '*' :: tail
  · obtain ⟨tail, rfl⟩ := second
    exact Nat.le_succ _
  · rw [lex]
    exact fun tail shape => second ⟨tail, shape⟩

/-- The token read is at least as long as any lexeme that the text begins with. -/
theorem length_lex_le (stands : StandsFor lexeme token) (rest : List Char) :
    (lex (lexeme ++ rest)).2.length ≤ rest.length := by
  cases stands with
  | number proper =>
      obtain ⟨found, after, scanned, shorter⟩ := Numeral.exists_scan?_append proper rest
      rw [lex_spelling proper scanned]
      exact shorter
  | name matched =>
      obtain ⟨first, tail, rfl, start, parts⟩ := Pattern.mem_name_iff.mp matched
      rw [lex_name start parts]
      exact length_dropWhile_le _ _
  | symbol listed =>
      simp only [symbols, List.mem_cons, Prod.mk.injEq, List.not_mem_nil, or_false] at listed
      rcases listed with h | h | h | h | h | h | h | h <;> obtain ⟨rfl, rfl⟩ := h
      case inr.inr.inr.inl => exact length_lex_star_le rest
      all_goals exact Nat.le_refl _

/-- A lexeme on its own is read as the token it stands for. -/
theorem lex_lexeme (stands : StandsFor lexeme token) : lex lexeme = (token, []) := by
  cases stands with
  | number proper =>
      have scanned : Numeral.scan? (_ ++ []) = some (_, []) := Numeral.scan?_spelling proper nofun
      have alone := lex_spelling proper scanned
      rwa [List.append_nil] at alone
  | name matched =>
      obtain ⟨first, tail, rfl, start, parts⟩ := Pattern.mem_name_iff.mp matched
      have alone := lex_name start parts []
      rw [List.append_nil] at alone
      rw [alone]
      simp
  | symbol listed =>
      simp only [symbols, List.mem_cons, Prod.mk.injEq, List.not_mem_nil, or_false] at listed
      rcases listed with h | h | h | h | h | h | h | h <;> obtain ⟨rfl, rfl⟩ := h <;> rfl

private theorem isWordPart_of_mem_exponent {exponent : Exponent} (proper : exponent.IsProper)
    {c : Char} (member : c ∈ exponent.spelling) : isWordPart c = true := by
  obtain ⟨mark, sign, digits⟩ := exponent
  rw [Exponent.spelling, List.cons_append] at member
  rcases List.mem_cons.mp member with rfl | member
  · rcases proper.mark with rfl | rfl <;> rfl
  · rcases List.mem_append.mp member with member | member
    · rcases sign with _ | _ | _
      · cases member
      · rw [List.mem_singleton.mp member]
        rfl
      · rw [List.mem_singleton.mp member]
        rfl
    · exact isWordPart_of_isDigit (proper.digits c member)

theorem isWordPart_of_mem_numeral {numeral : Numeral} (proper : numeral.IsProper) {c : Char}
    (member : c ∈ numeral.spelling) : isWordPart c = true := by
  obtain ⟨whole, fraction, exponent⟩ := numeral
  rw [Numeral.spelling_eq] at member
  rcases List.mem_append.mp member with member | member
  · exact isWordPart_of_isDigit (proper.whole c member)
  · rcases List.mem_append.mp member with member | member
    · cases fraction with
      | none => cases member
      | some places =>
          rcases List.mem_cons.mp member with rfl | member
          · rfl
          · exact isWordPart_of_isDigit ((proper.fraction places rfl).2 c member)
    · cases exponent with
      | none => cases member
      | some exponent => exact isWordPart_of_mem_exponent (proper.exponent exponent rfl) member

theorem mem_lexeme_cases (stands : StandsFor lexeme token) {c : Char} (member : c ∈ lexeme) :
    isWordPart c = true ∨ (lexeme, token) ∈ symbols := by
  cases stands with
  | number proper => exact .inl (isWordPart_of_mem_numeral proper member)
  | name matched =>
      obtain ⟨first, tail, rfl, start, parts⟩ := Pattern.mem_name_iff.mp matched
      have inside : ∀ c ∈ first :: tail, isNamePart c = true :=
        List.forall_mem_cons.mpr ⟨isNamePart_of_isNameStart start, parts⟩
      exact .inl (isWordPart_of_isNamePart (inside c member))
  | symbol listed => exact .inr listed

/-- Blanks are part of no lexeme. -/
theorem isBlank_eq_false_of_mem_lexeme (stands : StandsFor lexeme token) {c : Char}
    (member : c ∈ lexeme) : isBlank c = false := by
  rcases mem_lexeme_cases stands member with part | listed
  · exact isBlank_eq_false_of_isWordPart part
  · have visible : ∀ entry ∈ symbols, entry.1.any isBlank = false := by decide
    exact Bool.eq_false_iff.mpr (List.any_eq_false.mp (visible _ listed) c member)

theorem lexeme_ne_nil (stands : StandsFor lexeme token) : lexeme ≠ [] := by
  cases stands with
  | number proper =>
      obtain ⟨c, tail, shape, -⟩ := spelling_eq_cons proper
      rw [shape]
      exact List.cons_ne_nil _ _
  | name matched =>
      obtain ⟨first, tail, rfl, -⟩ := Pattern.mem_name_iff.mp matched
      exact List.cons_ne_nil _ _
  | symbol listed =>
      rintro rfl
      simp [symbols] at listed

theorem next_lexeme (stands : StandsFor lexeme token) (rest : List Char) :
    next (lexeme ++ rest) = lex (lexeme ++ rest) := by
  obtain ⟨c, tail, rfl⟩ := List.exists_cons_of_ne_nil (lexeme_ne_nil stands)
  have inside := isBlank_eq_false_of_mem_lexeme stands List.mem_cons_self
  rw [List.cons_append, next, (stopsAt_cons inside (tail ++ rest)).dropWhile]

theorem ne_endOfInput_of_standsFor (stands : StandsFor lexeme token) : token ≠ .endOfInput := by
  intro ended
  subst ended
  cases stands with
  | symbol listed => simp [symbols] at listed

/-- A lexeme on its own has one token. -/
theorem stream_lexeme (stands : StandsFor lexeme token) : stream lexeme = [token] := by
  have scanned : next (lexeme ++ []) = (token, []) := by
    rw [next_lexeme stands, List.append_nil, lex_lexeme stands]
  rw [List.append_nil] at scanned
  rw [stream_eq_cons scanned (ne_endOfInput_of_standsFor stands)]
  rfl

end Token

end Calculator
