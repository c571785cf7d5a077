import Calculator.Proofs.Token.Lexeme

/-!
# Longest tokens first

A text is cut into blanks and lexemes. Each lexeme is the longest that matches a pattern where it
stands, or a single character where none matches. There is exactly one such cut, and the tokens of a
text are those of its lexemes.
-/

set_option autoImplicit false

namespace Calculator

open Token

/-!
## The rule
-/

/-- What a text begins with: the longest of its prefixes that match a pattern, and the token it
stands for. Where none matches, its first character is no token, unless it is a blank. -/
inductive Begins (text : List Char) : List Char → Token → Prop where
  | longest {lexeme token} : IsLexeme lexeme → lexeme <+: text →
      (∀ other, IsLexeme other → other <+: text → other.length ≤ lexeme.length) →
      StandsFor lexeme token → Begins text lexeme token
  | illegal {c} : [c] <+: text → isBlank c = false →
      (∀ other, IsLexeme other → ¬ other <+: text) →
      Begins text [c] (.illegal (String.ofList [c]))

/-- A token, what it was read from, and the blanks in front of that. -/
structure Piece where
  blanks : List Char
  lexeme : List Char
  token : Token

def Piece.text (piece : Piece) : List Char :=
  piece.blanks ++ piece.lexeme

/-- A cut of a text into pieces and blanks behind them, each piece the longest where it stands. -/
structure Cuts (text : List Char) (pieces : List Piece) (trailing : List Char) : Prop where
  whole : text = pieces.flatMap Piece.text ++ trailing
  between : ∀ piece ∈ pieces, ∀ c ∈ piece.blanks, isBlank c = true
  behind : ∀ c ∈ trailing, isBlank c = true
  munches : ∀ before piece behind, pieces = before ++ piece :: behind →
    Begins (piece.lexeme ++ (behind.flatMap Piece.text ++ trailing)) piece.lexeme piece.token

/-!
## The rule determines the first token
-/

section Rule

variable {text lexeme other rest : List Char} {token otherToken : Token}

theorem StandsFor.unique (first : StandsFor lexeme token) (second : StandsFor lexeme otherToken) :
    token = otherToken :=
  congrArg Prod.fst ((lex_lexeme first).symm.trans (lex_lexeme second))

theorem Begins.unique (first : Begins text lexeme token) (second : Begins text other otherToken) :
    lexeme = other ∧ token = otherToken := by
  cases first with
  | longest isLexeme isPrefix most stands =>
      cases second with
      | longest otherLexeme otherPrefix otherMost otherStands =>
          have same : lexeme = other := by
            refine (List.prefix_of_prefix_length_le isPrefix otherPrefix ?_).eq_of_length ?_
            · exact otherMost lexeme isLexeme isPrefix
            · exact Nat.le_antisymm (otherMost lexeme isLexeme isPrefix)
                (most other otherLexeme otherPrefix)
          subst same
          exact ⟨rfl, stands.unique otherStands⟩
      | illegal _ _ unmatched => exact absurd isPrefix (unmatched lexeme isLexeme)
  | illegal isPrefix _ unmatched =>
      cases second with
      | longest otherLexeme otherPrefix => exact absurd otherPrefix (unmatched other otherLexeme)
      | illegal otherPrefix =>
          obtain ⟨rest, rfl⟩ := isPrefix
          cases List.cons_prefix_cons.mp otherPrefix |>.1
          exact ⟨rfl, rfl⟩

theorem Begins.of_lex (stands : StandsFor lexeme token)
    (scanned : lex (lexeme ++ rest) = (token, rest)) : Begins (lexeme ++ rest) lexeme token := by
  refine .longest (isLexeme_iff_exists_standsFor.mpr ⟨token, stands⟩) (List.prefix_append _ _) ?_
    stands
  rintro other isLexeme ⟨behind, same⟩
  obtain ⟨otherToken, otherStands⟩ := isLexeme_iff_exists_standsFor.mp isLexeme
  have shorter := length_lex_le otherStands behind
  rw [same, scanned] at shorter
  have lengths := congrArg List.length same
  simp only [List.length_append] at lengths shorter
  omega

private theorem exists_symbol_of_lex {c : Char} (symbol : isSymbol c = true)
    (scanned : lex (c :: text) = (token, rest)) :
    ∃ lexeme, c :: text = lexeme ++ rest ∧ (lexeme, token) ∈ symbols := by
  by_cases power : c = '*' ∧ ∃ tail, text = '*' :: tail
  · obtain ⟨rfl, tail, rfl⟩ := power
    cases scanned
    exact ⟨['*', '*'], rfl, by simp [symbols]⟩
  · have single : (([c], (lex (c :: text)).1) ∈ symbols) ∧ (lex (c :: text)).2 = text := by
      rcases isSymbol_cases symbol with rfl | rfl | rfl | rfl | rfl | rfl | rfl
      case inr.inr.inl =>
        rw [lex]
        · simp [symbols]
        · exact fun tail shape => power ⟨rfl, tail, shape⟩
      all_goals simp [symbols, lex]
    rw [scanned] at single
    obtain ⟨listed, rfl⟩ := single
    exact ⟨[c], rfl, listed⟩

/-- Where no lexeme can begin, none does. -/
theorem not_isPrefix_of_scan?_eq_none {c : Char} (symbol : isSymbol c = false)
    (letter : ¬ isNameStart c = true) (unscanned : Numeral.scan? (c :: text) = none)
    (isLexeme : IsLexeme other) : ¬ other <+: c :: text := by
  rintro ⟨rest, same⟩
  obtain ⟨token, stands⟩ := isLexeme_iff_exists_standsFor.mp isLexeme
  cases stands with
  | number proper =>
      obtain ⟨found, after, scanned, -⟩ := Numeral.exists_scan?_append proper rest
      rw [same, unscanned] at scanned
      cases scanned
  | name matched =>
      obtain ⟨first, tail, rfl, start, -⟩ := Pattern.mem_name_iff.mp matched
      cases same
      exact letter start
  | symbol listed =>
      obtain ⟨first, tail, rfl⟩ := List.exists_cons_of_ne_nil (lexeme_ne_nil (.symbol listed))
      cases same
      exact Bool.eq_false_iff.mp symbol (isSymbol_iff.mpr ⟨_, _, listed, rfl⟩)

/-- The lexer follows the rule. -/
theorem exists_begins_of_lex {c : Char} (inside : isBlank c = false)
    (scanned : lex (c :: text) = (token, rest)) :
    ∃ lexeme, c :: text = lexeme ++ rest ∧ Begins (c :: text) lexeme token := by
  cases symbol : isSymbol c with
  | true =>
      obtain ⟨lexeme, shape, listed⟩ := exists_symbol_of_lex symbol scanned
      rw [shape] at scanned ⊢
      exact ⟨lexeme, rfl, .of_lex (.symbol listed) scanned⟩
  | false =>
      have step := scanned
      rw [lex_of_not_isSymbol symbol] at step
      split at step
      next start =>
        have part := isNamePart_of_isNameStart start
        have parts : ∀ c ∈ text.takeWhile isNamePart, isNamePart c = true :=
          fun _ => inClass_of_mem_takeWhile
        have named : c :: text.takeWhile isNamePart ∈ Pattern.name.matches' :=
          Pattern.mem_name_iff.mpr ⟨c, _, rfl, start, parts⟩
        have shape : c :: text = c :: text.takeWhile isNamePart ++ text.dropWhile isNamePart := by
          rw [List.cons_append, List.takeWhile_append_dropWhile]
        rw [List.takeWhile_cons_of_pos part, List.dropWhile_cons_of_pos part] at step
        cases step
        rw [shape] at scanned
        exact ⟨_, shape, shape ▸ .of_lex (.name named) scanned⟩
      next letter =>
        split at step
        next numeral after found =>
          cases step
          have shape := Numeral.append_of_scan? found
          rw [shape] at scanned ⊢
          exact ⟨_, rfl, .of_lex (.number (Numeral.isProper_of_scan? found)) scanned⟩
        next unscanned =>
          cases step
          exact ⟨[c], rfl, .illegal ⟨text, rfl⟩ inside fun _ isLexeme =>
            not_isPrefix_of_scan?_eq_none symbol letter unscanned isLexeme⟩

theorem Begins.token_eq (begins : Begins text lexeme token) (stands : StandsFor lexeme otherToken) :
    token = otherToken := by
  cases begins with
  | longest _ _ _ first => exact first.unique stands
  | illegal isPrefix _ unmatched =>
      exact absurd isPrefix (unmatched _ (isLexeme_iff_exists_standsFor.mpr ⟨_, stands⟩))

theorem Begins.exists_cons (begins : Begins text lexeme token) :
    ∃ c tail, lexeme = c :: tail ∧ isBlank c = false := by
  cases begins with
  | longest _ _ _ stands =>
      obtain ⟨c, tail, rfl⟩ := List.exists_cons_of_ne_nil (lexeme_ne_nil stands)
      exact ⟨c, tail, rfl, isBlank_eq_false_of_mem_lexeme stands List.mem_cons_self⟩
  | illegal _ inside => exact ⟨_, [], rfl, inside⟩

theorem Begins.token_ne_endOfInput (begins : Begins text lexeme token) :
    token ≠ .endOfInput := by
  cases begins with
  | longest _ _ _ stands => exact ne_endOfInput_of_standsFor stands
  | illegal => exact Token.noConfusion

theorem Begins.stopsAt (begins : Begins text lexeme token) (rest : List Char) :
    StopsAt isBlank (lexeme ++ rest) := by
  obtain ⟨c, tail, rfl, inside⟩ := begins.exists_cons
  exact stopsAt_cons inside _

/-- Behind blanks, the next token is the one that the rule determines. -/
theorem Begins.next {blanks : List Char} (begins : Begins (lexeme ++ rest) lexeme token)
    (blank : ∀ c ∈ blanks, isBlank c = true) :
    next (blanks ++ (lexeme ++ rest)) = (token, rest) := by
  obtain ⟨c, tail, rfl, inside⟩ := begins.exists_cons
  rw [Token.next, dropWhile_run blank (begins.stopsAt rest)]
  cases scanned : lex (c :: tail ++ rest) with
  | mk found after =>
      obtain ⟨other, shape, otherBegins⟩ := exists_begins_of_lex inside scanned
      obtain ⟨rfl, rfl⟩ := begins.unique otherBegins
      have same : c :: tail ++ rest = c :: tail ++ after := shape
      rw [List.append_cancel_left same]

private theorem next_of_blank (blank : ∀ c ∈ text, isBlank c = true) :
    Token.next text = (.endOfInput, []) := by
  have dropped : (text ++ []).dropWhile isBlank = [] := dropWhile_run blank nofun
  rw [List.append_nil] at dropped
  rw [Token.next, dropped]
  rfl

private theorem Begins.length_lt (begins : Begins (lexeme ++ rest) lexeme token) :
    rest.length < (lexeme ++ rest).length := by
  obtain ⟨c, tail, rfl, -⟩ := begins.exists_cons
  simp only [List.length_append, List.length_cons]
  omega

private theorem blank_or_exists_begins (text : List Char) :
    (∀ c ∈ text, isBlank c = true) ∨
      ∃ blanks lexeme token rest, text = blanks ++ (lexeme ++ rest) ∧
        (∀ c ∈ blanks, isBlank c = true) ∧ Begins (lexeme ++ rest) lexeme token := by
  have whole := List.takeWhile_append_dropWhile (p := isBlank) (l := text)
  have blank : ∀ c ∈ text.takeWhile isBlank, isBlank c = true :=
    fun _ => inClass_of_mem_takeWhile
  cases left : text.dropWhile isBlank with
  | nil =>
      rw [left, List.append_nil] at whole
      exact .inl (whole ▸ blank)
  | cons c tail =>
      have inside : isBlank c = false := stopsAt_dropWhile isBlank text c (by rw [left]; rfl)
      cases scanned : lex (c :: tail) with
      | mk token rest =>
          obtain ⟨lexeme, shape, begins⟩ := exists_begins_of_lex inside scanned
          rw [left, shape] at whole
          exact .inr ⟨_, lexeme, token, rest, whole.symm, blank, shape ▸ begins⟩

end Rule

/-!
## Cuts, piece by piece
-/

namespace Cuts

variable {text rest trailing : List Char} {piece : Piece} {pieces : List Piece}

theorem nil (blank : ∀ c ∈ text, isBlank c = true) : Cuts text [] text :=
  ⟨rfl, nofun, blank, by simp⟩

theorem cons {blanks lexeme : List Char} {token : Token}
    (blank : ∀ c ∈ blanks, isBlank c = true) (begins : Begins (lexeme ++ rest) lexeme token)
    (cuts : Cuts rest pieces trailing) :
    Cuts (blanks ++ (lexeme ++ rest)) (⟨blanks, lexeme, token⟩ :: pieces) trailing := by
  obtain ⟨rfl, between, behind, munches⟩ := cuts
  refine ⟨by simp [Piece.text], List.forall_mem_cons.mpr ⟨blank, between⟩, behind, ?_⟩
  intro before other further shape
  cases before with
  | nil =>
      cases shape
      exact begins
  | cons first before =>
      obtain ⟨rfl, rfl⟩ := List.cons.inj shape
      exact munches before other further rfl

theorem uncons (cuts : Cuts text (piece :: pieces) trailing) :
    ∃ rest, text = piece.blanks ++ (piece.lexeme ++ rest) ∧
      (∀ c ∈ piece.blanks, isBlank c = true) ∧
      Begins (piece.lexeme ++ rest) piece.lexeme piece.token ∧ Cuts rest pieces trailing := by
  obtain ⟨rfl, between, behind, munches⟩ := cuts
  obtain ⟨blank, further⟩ := List.forall_mem_cons.mp between
  refine ⟨pieces.flatMap Piece.text ++ trailing, by simp [Piece.text], blank,
    munches [] piece pieces rfl, rfl, further, behind, ?_⟩
  intro before other rest shape
  exact munches (piece :: before) other rest (by rw [shape, List.cons_append])

theorem nil_iff : Cuts text [] trailing ↔ text = trailing ∧ ∀ c ∈ text, isBlank c = true := by
  constructor
  · rintro ⟨rfl, -, blank, -⟩
    exact ⟨rfl, blank⟩
  · rintro ⟨rfl, blank⟩
    exact .nil blank

private theorem not_blank (cuts : Cuts text (piece :: pieces) trailing) :
    ¬ ∀ c ∈ text, isBlank c = true := by
  intro blank
  obtain ⟨rest, rfl, -, begins, -⟩ := cuts.uncons
  obtain ⟨c, tail, shape, inside⟩ := begins.exists_cons
  have member : c ∈ piece.blanks ++ (piece.lexeme ++ rest) := by simp [shape]
  rw [blank c member] at inside
  cases inside

theorem unique {others : List Piece} {otherTrailing : List Char}
    (cuts : Cuts text pieces trailing) (otherCuts : Cuts text others otherTrailing) :
    others = pieces ∧ otherTrailing = trailing := by
  induction pieces generalizing text others with
  | nil =>
      obtain ⟨rfl, blank⟩ := nil_iff.mp cuts
      cases others with
      | nil => exact ⟨rfl, (nil_iff.mp otherCuts).1.symm⟩
      | cons other others => exact absurd blank otherCuts.not_blank
  | cons piece pieces ih =>
      cases others with
      | nil => exact absurd (nil_iff.mp otherCuts).2 cuts.not_blank
      | cons other others =>
          obtain ⟨rest, rfl, blank, begins, further⟩ := cuts.uncons
          obtain ⟨otherRest, same, otherBlank, otherBegins, otherFurther⟩ := otherCuts.uncons
          have blanks : other.blanks = piece.blanks := by
            rw [← takeWhile_run otherBlank (otherBegins.stopsAt otherRest), ← same,
              takeWhile_run blank (begins.stopsAt rest)]
          rw [blanks] at same
          have behind := List.append_cancel_left same
          rw [← behind] at otherBegins
          obtain ⟨lexeme, token⟩ := begins.unique otherBegins
          rw [lexeme] at behind
          obtain rfl := List.append_cancel_left behind
          obtain ⟨rfl, rfl⟩ := ih further otherFurther
          obtain ⟨_, _, _⟩ := other
          cases blanks
          cases lexeme
          cases token
          exact ⟨rfl, rfl⟩

/-- The tokens of a text are those of its pieces. -/
theorem stream_eq (cuts : Cuts text pieces trailing) : stream text = pieces.map Piece.token := by
  induction pieces generalizing text with
  | nil => exact stream_eq_nil (by rw [next_of_blank (nil_iff.mp cuts).2])
  | cons piece pieces ih =>
      obtain ⟨rest, rfl, blank, begins, further⟩ := cuts.uncons
      rw [stream_eq_cons (begins.next blank) begins.token_ne_endOfInput, ih further, List.map_cons]

end Cuts

/-- Every text can be cut. -/
theorem exists_cuts (text : List Char) : ∃ pieces trailing, Cuts text pieces trailing := by
  induction length : text.length using Nat.strongRecOn generalizing text with
  | ind bound ih =>
      rcases blank_or_exists_begins text with
        blank | ⟨blanks, lexeme, token, rest, rfl, blank, begins⟩
      · exact ⟨[], _, .nil blank⟩
      · have shorter := begins.length_lt
        simp only [List.length_append] at length shorter
        obtain ⟨pieces, trailing, cuts⟩ := ih rest.length (by omega) rest rfl
        exact ⟨_, trailing, .cons blank begins cuts⟩

/-- A token is what the text begins with somewhere. -/
theorem exists_begins_of_mem {text : List Char} {token : Token} (member : token ∈ stream text) :
    ∃ rest lexeme, Begins rest lexeme token := by
  obtain ⟨pieces, trailing, cuts⟩ := exists_cuts text
  rw [cuts.stream_eq] at member
  obtain ⟨piece, among, rfl⟩ := List.mem_map.mp member
  obtain ⟨before, behind, whole⟩ := List.append_of_mem among
  exact ⟨_, piece.lexeme, cuts.munches before piece behind whole⟩

/-- Only blanks have no tokens. -/
theorem stream_eq_nil_iff {text : List Char} :
    stream text = [] ↔ ∀ c ∈ text, isBlank c = true := by
  constructor
  · intro empty
    rcases exists_cuts text with ⟨pieces, trailing, cuts⟩
    rw [cuts.stream_eq, List.map_eq_nil_iff] at empty
    rw [empty] at cuts
    exact (Cuts.nil_iff.mp cuts).2
  · intro blank
    exact (Cuts.nil_iff.mpr ⟨rfl, blank⟩).stream_eq

/-!
## Characters that keep tokens apart
-/

/-- A character over which no lexeme reaches. It may be one by itself. -/
def Solitary (c : Char) : Prop :=
  ∀ lexeme token, StandsFor lexeme token → c ∈ lexeme → lexeme = [c]

theorem solitary_of_isBlank {c : Char} (blank : isBlank c = true) : Solitary c := by
  intro lexeme token stands member
  rw [isBlank_eq_false_of_mem_lexeme stands member] at blank
  cases blank

/-- No symbol of several characters has the character, and no word has it. -/
theorem solitary_of_not_isWordPart {c : Char} (other : isWordPart c = false)
    (single : ∀ entry ∈ symbols, c ∈ entry.1 → entry.1 = [c]) : Solitary c := by
  intro lexeme token stands member
  rcases mem_lexeme_cases stands member with part | listed
  · rw [other] at part
    cases part
  · exact single _ listed member

theorem stream_blanks {blanks : List Char} (blank : ∀ c ∈ blanks, isBlank c = true)
    (text : List Char) : stream (blanks ++ text) = stream text := by
  induction blanks with
  | nil => rfl
  | cons first blanks ih =>
      obtain ⟨head, further⟩ := List.forall_mem_cons.mp blank
      rw [List.cons_append, stream_blank head, ih further]

section Separation

variable {c : Char} (solitary : Solitary c)
include solitary

private theorem isPrefix_of_isPrefix_append {lexeme text rest : List Char}
    (isLexeme : IsLexeme lexeme)
    (nonempty : text ≠ []) (isPrefix : lexeme <+: text ++ c :: rest) : lexeme <+: text := by
  by_cases short : lexeme.length ≤ text.length
  · exact List.prefix_of_prefix_length_le isPrefix (List.prefix_append _ _) short
  · obtain ⟨token, stands⟩ := isLexeme_iff_exists_standsFor.mp isLexeme
    have front : text ++ [c] <+: text ++ c :: rest := by simp
    have inside : text ++ [c] <+: lexeme :=
      List.prefix_of_prefix_length_le front isPrefix (by simp; omega)
    rw [solitary lexeme token stands (inside.subset (by simp))] at short
    have positive := List.length_pos_iff.mpr nonempty
    simp only [List.length_singleton] at short
    omega

private theorem Begins.append {text lexeme : List Char} {token : Token}
    (begins : Begins text lexeme token)
    (rest : List Char) : Begins (text ++ c :: rest) lexeme token := by
  have nonempty : text ≠ [] := by
    rintro rfl
    obtain ⟨first, tail, rfl, -⟩ := begins.exists_cons
    cases begins with
    | longest _ isPrefix => exact absurd (List.prefix_nil.mp isPrefix) (List.cons_ne_nil _ _)
    | illegal isPrefix => exact absurd (List.prefix_nil.mp isPrefix) (List.cons_ne_nil _ _)
  cases begins with
  | longest isLexeme isPrefix most stands =>
      exact .longest isLexeme (isPrefix.trans (List.prefix_append _ _))
        (fun other otherLexeme reaches =>
          most other otherLexeme (isPrefix_of_isPrefix_append solitary otherLexeme nonempty reaches))
        stands
  | illegal isPrefix inside unmatched =>
      exact .illegal (isPrefix.trans (List.prefix_append _ _)) inside
        fun other otherLexeme reaches =>
          unmatched other otherLexeme
            (isPrefix_of_isPrefix_append solitary otherLexeme nonempty reaches)

/-- The tokens in front of the character are those of what is in front of it alone. -/
theorem Solitary.stream_append (text rest : List Char) :
    stream (text ++ c :: rest) = stream text ++ stream (c :: rest) := by
  obtain ⟨pieces, trailing, cuts⟩ := exists_cuts text
  rw [cuts.stream_eq]
  induction pieces generalizing text with
  | nil =>
      rw [stream_blanks (Cuts.nil_iff.mp cuts).2]
      rfl
  | cons piece pieces ih =>
      obtain ⟨behind, rfl, blank, begins, further⟩ := cuts.uncons
      have longer := begins.append solitary rest
      rw [List.append_assoc] at longer
      rw [List.append_assoc, List.append_assoc,
        stream_eq_cons (longer.next blank) begins.token_ne_endOfInput, ih behind further]
      rfl

end Separation

theorem stream_append {c : Char} (separates : isBlank c = true) (text rest : List Char) :
    stream (text ++ c :: rest) = stream text ++ stream rest := by
  rw [(solitary_of_isBlank separates).stream_append, stream_blank separates]

/-- A symbol that begins no longer one is its token, whatever stands behind it. -/
theorem stream_symbol (c : Char) {token : Token} (listed : symbols.lookup [c] = some token)
    (single : ∀ entry ∈ symbols, entry.1.head? = some c → entry.1 = [c]) (rest : List Char) :
    stream (c :: rest) = token :: stream rest := by
  obtain ⟨front, back, table, -⟩ := List.lookup_eq_some_iff.mp listed
  have member : ([c], token) ∈ symbols := table ▸ List.mem_append_right front List.mem_cons_self
  have read : lex ([c] ++ rest) = (token, rest) := by
    cases scanned : lex ([c] ++ rest) with
    | mk found after =>
        obtain ⟨lexeme, shape, other⟩ :=
          exists_symbol_of_lex (isSymbol_iff.mpr ⟨_, _, member, rfl⟩) scanned
        obtain ⟨first, tail, rfl⟩ := List.exists_cons_of_ne_nil (lexeme_ne_nil (.symbol other))
        cases shape
        cases single _ other rfl
        exact congrArg (·, after) (StandsFor.unique (.symbol other) (.symbol member))
  have begins := Begins.of_lex (.symbol member) read
  have scanned : next ([] ++ ([c] ++ rest)) = (token, rest) := begins.next nofun
  exact stream_eq_cons scanned begins.token_ne_endOfInput

/-- A symbol that is part of no other lexeme is its token, whatever stands around it. -/
theorem stream_append_symbol (c : Char) {token : Token} (listed : symbols.lookup [c] = some token)
    (other : isWordPart c = false) (single : ∀ entry ∈ symbols, c ∈ entry.1 → entry.1 = [c])
    (text rest : List Char) :
    stream (text ++ c :: rest) = stream text ++ token :: stream rest := by
  have begun (entry : List Char × Token) (member : entry ∈ symbols)
      (head : entry.1.head? = some c) : entry.1 = [c] :=
    single entry member (List.mem_of_head? head)
  rw [(solitary_of_not_isWordPart other single).stream_append, stream_symbol c listed begun]

/-- A character that is neither a blank nor part of a lexeme. -/
structure Foreign (c : Char) : Prop where
  visible : isBlank c = false
  outside : ∀ lexeme token, StandsFor lexeme token → c ∉ lexeme

/-- A foreign character is an illegal token wherever it stands. -/
theorem Foreign.stream_append {c : Char} (foreign : Foreign c) (text rest : List Char) :
    stream (text ++ c :: rest) =
      stream text ++ .illegal (String.ofList [c]) :: stream rest := by
  have solitary : Solitary c :=
    fun lexeme token stands member => absurd member (foreign.outside lexeme token stands)
  have begins : Begins ([c] ++ rest) [c] (.illegal (String.ofList [c])) := by
    refine .illegal ⟨rest, rfl⟩ foreign.visible fun other isLexeme isPrefix => ?_
    obtain ⟨token, stands⟩ := isLexeme_iff_exists_standsFor.mp isLexeme
    obtain ⟨first, tail, rfl⟩ := List.exists_cons_of_ne_nil (lexeme_ne_nil stands)
    cases (List.cons_prefix_cons.mp isPrefix).1
    exact foreign.outside _ token stands List.mem_cons_self
  have scanned : next ([] ++ c :: rest) = (.illegal (String.ofList [c]), rest) :=
    begins.next nofun
  rw [List.nil_append] at scanned
  rw [solitary.stream_append, stream_eq_cons scanned nofun]

/-- Between two texts, blanks keep the tokens of the one from those of the other. -/
theorem tokenize_append {blanks : String} (separated : blanks ≠ "")
    (blank : ∀ c ∈ blanks.toList, isBlank c = true) (front back : String) :
    tokenize (front ++ blanks ++ back) = tokenize front ++ tokenize back := by
  have nonempty : blanks.toList ≠ [] := fun empty => separated (String.toList_eq_nil_iff.mp empty)
  obtain ⟨c, further, shape⟩ := List.exists_cons_of_ne_nil nonempty
  rw [shape] at blank
  obtain ⟨separates, blank⟩ := List.forall_mem_cons.mp blank
  rw [tokenize_eq_stream, tokenize_eq_stream, tokenize_eq_stream, String.toList_append,
    String.toList_append, shape, List.append_assoc, List.cons_append, stream_append separates,
    stream_blanks blank]

/-!
## Asking for tokens one by one
-/

/-- The token that is found after `count` others, in calls of `next` that each go on where the one
before stopped. -/
def Token.nth (text : List Char) : (count : Nat) → Token
  | 0 => (next text).1
  | count + 1 => nth (next text).2 count

private theorem nth_of_blank {text : List Char} (blank : ∀ c ∈ text, isBlank c = true)
    (count : Nat) :
    Token.nth text count = .endOfInput := by
  induction count generalizing text with
  | zero => rw [Token.nth, next_of_blank blank]
  | succ count ih =>
      rw [Token.nth, next_of_blank blank]
      exact ih nofun

theorem Cuts.nth_eq {text trailing : List Char} {pieces : List Piece}
    (cuts : Cuts text pieces trailing) (count : Nat) :
    Token.nth text count = (pieces.map Piece.token).getD count .endOfInput := by
  induction pieces generalizing text count with
  | nil =>
      rw [nth_of_blank (Cuts.nil_iff.mp cuts).2]
      rfl
  | cons piece pieces ih =>
      obtain ⟨rest, rfl, blank, begins, further⟩ := cuts.uncons
      cases count with
      | zero =>
          rw [Token.nth, begins.next blank]
          rfl
      | succ count =>
          rw [Token.nth, begins.next blank, ih further]
          rfl

theorem nth_eq_getD (source : String) (count : Nat) :
    Token.nth source.toList count = (tokenize source).getD count .endOfInput := by
  obtain ⟨pieces, trailing, cuts⟩ := exists_cuts source.toList
  rw [cuts.nth_eq, tokenize_eq_stream, cuts.stream_eq]

/-- Every text is cut into blanks and lexemes in exactly one way, and its tokens are those of the
lexemes. A lexeme that matches a pattern of numbers is the number that its digits make. Asked for
one by one, the tokens come in order, and behind them the end of input for ever. -/
theorem tokenize_eq_longest_lexemes (source : String) :
    ∃ pieces trailing, Cuts source.toList pieces trailing ∧
      (∀ others otherTrailing, Cuts source.toList others otherTrailing →
        others = pieces ∧ otherTrailing = trailing) ∧
      (∀ piece ∈ pieces, piece.lexeme ≠ []) ∧
      (∀ piece ∈ pieces,
        piece.lexeme ∈ Pattern.number.matches' ∨ piece.lexeme ∈ Pattern.pointNumber.matches' →
        ∃ numeral : Numeral, numeral.IsProper ∧ numeral.spelling = piece.lexeme ∧
          piece.token = .number numeral.toFloat) ∧
      tokenize source = pieces.map Piece.token ∧
      .endOfInput ∉ pieces.map Piece.token ∧
      ∀ count, Token.nth source.toList count =
        (pieces.map Piece.token).getD count .endOfInput := by
  obtain ⟨pieces, trailing, cuts⟩ := exists_cuts source.toList
  have tokens : tokenize source = pieces.map Piece.token :=
    (tokenize_eq_stream source).trans cuts.stream_eq
  refine ⟨pieces, trailing, cuts, fun _ _ => cuts.unique, ?_, ?_, tokens,
    tokens ▸ endOfInput_not_mem_tokenize source, cuts.nth_eq⟩
  · intro piece member
    obtain ⟨before, behind, shape⟩ := List.append_of_mem member
    obtain ⟨c, tail, named, -⟩ := (cuts.munches before piece behind shape).exists_cons
    rw [named]
    exact List.cons_ne_nil c tail
  · intro piece member number
    obtain ⟨before, behind, shape⟩ := List.append_of_mem member
    obtain ⟨numeral, proper, spelled⟩ := Pattern.exists_numeral number
    refine ⟨numeral, proper, spelled, ?_⟩
    exact (cuts.munches before piece behind shape).token_eq (spelled ▸ .number proper)

end Calculator
