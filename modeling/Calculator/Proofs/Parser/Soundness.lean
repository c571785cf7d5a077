import Calculator.Proofs.Parser.Completeness

/-!
# What is read is a phrase

Whenever the parser succeeds, the tokens that it consumed are those of a phrase of the grammar, and
its result is the tree of this phrase. The loop of precedence climbing carries a phrase that ends at
the current token and is followed by a token that does not belong to its last operand.
-/

set_option autoImplicit false

namespace Calculator

/-!
## Tighter and looser nonterminals
-/

namespace Nonterminal

def rank : Nonterminal → Nat
  | .sum => 0
  | .product => 1
  | .power => 2
  | .unary => 3
  | .application => 4
  | .primary => 5

def looser : Nonterminal → Nonterminal
  | .sum => .sum
  | .product => .sum
  | .power => .product
  | .unary => .power
  | .application => .unary
  | .primary => .application

private theorem rank_looser (nonterminal : Nonterminal) :
    nonterminal.looser.rank = nonterminal.rank - 1 := by
  cases nonterminal <;> rfl

private theorem eq_of_rank_eq {left right : Nonterminal} (same : left.rank = right.rank) :
    left = right := by
  cases left <;> cases right <;> first | rfl | cases same

end Nonterminal

private theorem Derives.ofTight {nonterminal : Nonterminal} {phrase : Phrase}
    (derived : Derives nonterminal phrase) : Derives nonterminal.looser phrase := by
  cases nonterminal with
  | sum => exact derived
  | product => exact .ofProduct derived
  | power => exact .ofPower derived
  | unary => exact .ofUnary derived
  | application => exact .ofApplication derived
  | primary => exact .ofPrimary derived

theorem Derives.loosen {tight loose : Nonterminal} {phrase : Phrase}
    (derived : Derives tight phrase) (order : loose.rank ≤ tight.rank) : Derives loose phrase := by
  induction steps : tight.rank - loose.rank generalizing tight with
  | zero =>
      have same : loose = tight := Nonterminal.eq_of_rank_eq (by omega)
      exact same ▸ derived
  | succ steps ih =>
      have next := tight.rank_looser
      exact ih derived.ofTight (by omega) (by omega)

/-- A tighter threshold reads tighter phrases. Operands of calls are read at no threshold of their
own, but at the one for signs. -/
theorem Nonterminal.rank_le_rank {loose tight : Nonterminal}
    (order : loose.threshold ≤ tight.threshold) (notCalled : loose ≠ .application) :
    loose.rank ≤ tight.rank := by
  cases loose <;> cases tight <;>
    first | decide | exact absurd order (by decide) | exact absurd rfl notCalled

theorem Derives.toSum {nonterminal : Nonterminal} {phrase : Phrase}
    (derived : Derives nonterminal phrase) : Derives .sum phrase :=
  derived.loosen (Nat.zero_le _)

def Operator.whole : Operator → Nonterminal
  | .add | .sub => .sum
  | .mul | .div => .product
  | .pow => .power

private theorem Operator.follow_whole (operator : Operator) :
    operator.whole.follow = operator.rightPrecedence := by
  cases operator <;> rfl

theorem Operator.le_threshold_whole {operator : Operator} {threshold : Precedence}
    (binds : threshold < Precedence.of operator.token) : threshold ≤ operator.whole.threshold := by
  cases operator <;> cases threshold <;> first | decide | exact absurd binds (by decide)

theorem Token.binds_cases {threshold : Precedence} {token : Token}
    (binds : threshold < Precedence.of token) :
    token = .leftParen ∨ ∃ operator : Operator, token = operator.token := by
  cases token with
  | leftParen => exact .inl rfl
  | plus => exact .inr ⟨.add, rfl⟩
  | minus => exact .inr ⟨.sub, rfl⟩
  | star => exact .inr ⟨.mul, rfl⟩
  | slash => exact .inr ⟨.div, rfl⟩
  | starStar => exact .inr ⟨.pow, rfl⟩
  | _ => exact absurd binds (not_lt_lowest threshold)

private theorem Nonterminal.one_le_rank {nonterminal : Nonterminal}
    (drawn : Precedence.product ≤ nonterminal.follow) : 1 ≤ nonterminal.rank := by
  cases nonterminal <;> first | decide | exact absurd drawn (by decide)

private theorem Nonterminal.three_le_rank {nonterminal : Nonterminal}
    (drawn : Precedence.exponent ≤ nonterminal.follow) : 3 ≤ nonterminal.rank := by
  cases nonterminal <;> first | decide | exact absurd drawn (by decide)

/-- An operator joins a phrase that it draws in to one that is read at the level behind it. -/
theorem Derives.binary {operator : Operator} {leftOperand rightOperand : Nonterminal}
    {left right : Phrase} (leftDerived : Derives leftOperand left)
    (rightDerived : Derives rightOperand right)
    (drawn : Precedence.of operator.token ≤ leftOperand.follow)
    (reaches : operator.rightPrecedence ≤ rightOperand.threshold) :
    Derives operator.whole (.binary left operator right) := by
  have order (loose : Nonterminal) (same : loose.threshold = operator.rightPrecedence)
      (notCalled : loose ≠ .application) : Derives loose right :=
    rightDerived.loosen (Nonterminal.rank_le_rank (same ▸ reaches) notCalled)
  cases operator with
  | add => exact .sum (.inl rfl) leftDerived.toSum (order .product rfl (by simp))
  | sub => exact .sum (.inr rfl) leftDerived.toSum (order .product rfl (by simp))
  | mul =>
      exact .product (.inl rfl) (leftDerived.loosen (Nonterminal.one_le_rank drawn))
        (order .power rfl (by simp))
  | div =>
      exact .product (.inr rfl) (leftDerived.loosen (Nonterminal.one_le_rank drawn))
        (order .power rfl (by simp))
  | pow =>
      exact .power (leftDerived.loosen (Nonterminal.three_le_rank drawn))
        (order .power rfl (by simp))

/-!
## The invariant of reading
-/

/-- From one parser to another the tokens of a phrase have been read, up to its last one. -/
structure Spells (start : Parser) (phrase : Phrase) (final : Parser) : Prop where
  exists_rest : ∃ rest, start.tokens = phrase.tokens ++ rest ∧ final.tokens = phrase.last :: rest

/-- What has been read is a phrase of the nonterminal, and the lookahead does not belong to its last
operand. -/
structure HasRead (start : Parser) (node : Node) (nonterminal : Nonterminal) (phrase : Phrase)
    (final : Parser) : Prop where
  derived : Derives nonterminal phrase
  spells : Spells start phrase final
  tree : node.expr = phrase.tree
  follows : Precedence.of final.lookahead ≤ nonterminal.follow

/-- A rule for operands that reads nothing but phrases, as far as its threshold reaches. -/
def ReadsPhrases (operand : Precedence → ParserM Node) : Prop :=
  ∀ {threshold : Precedence} {parser after : Parser} {node : Node}, threshold ≤ .sign →
    operand threshold parser = .ok node after →
    ∃ nonterminal phrase, HasRead parser node nonterminal phrase after ∧
      threshold ≤ nonterminal.threshold ∧ Precedence.of after.lookahead ≤ threshold

private theorem branch_run_ok_components {expr : Expr} {tallest : Nat} {parser after : Parser}
    {node : Node} (ran : Node.branch (m := ParserM) expr tallest parser = .ok node after) :
    node = { expr, height := tallest + 1 } ∧ after = parser ∧ tallest < maxNesting := by
  by_cases fits : tallest < maxNesting
  · rw [branch_run_ok fits] at ran
    cases ran
    exact ⟨rfl, rfl, fits⟩
  · rw [branch_run_error fits] at ran
    cases ran

private theorem expectClosing_run_ok_components {parser after : Parser}
    (ran : expectClosing (m := ParserM) parser = .ok () after) :
    parser.lookahead = .rightParen ∧ after = parser.advance := by
  by_cases closing : parser.lookahead = .rightParen
  · rw [expectClosing_run_ok closing] at ran
    cases ran
    exact ⟨closing, rfl⟩
  · rw [expectClosing_run_error closing] at ran
    cases ran

theorem nested_run_ok_components {α : Type} {step : ParserM α} {parser after : Parser} {value : α}
    (ran : nested step parser = .ok value after) :
    ∃ inner, step parser.descend = .ok value inner ∧ after = inner.ascend := by
  by_cases shallow : parser.depth < maxNesting
  · cases inner : step parser.descend with
    | ok result final =>
        rw [nested_run_ok shallow inner] at ran
        cases ran
        exact ⟨final, rfl, rfl⟩
    | error error final =>
        rw [nested_run_error shallow inner] at ran
        cases ran
  · rw [nested_run_refused shallow] at ran
    cases ran

theorem branch_run_error_components {expr : Expr} {tallest : Nat} {parser after : Parser}
    {error : ParseError} (ran : Node.branch (m := ParserM) expr tallest parser = .error error after) :
    error = .tooDeep maxNesting ∧ after = parser := by
  by_cases fits : tallest < maxNesting
  · rw [branch_run_ok fits] at ran
    cases ran
  · rw [branch_run_error fits] at ran
    cases ran
    exact ⟨rfl, rfl⟩

theorem expectClosing_run_error_components {parser after : Parser} {error : ParseError}
    (ran : expectClosing (m := ParserM) parser = .error error after) :
    parser.lookahead ≠ .rightParen ∧ error = .unexpected ")" parser.lookahead.text ∧
      after = parser := by
  by_cases closing : parser.lookahead = .rightParen
  · rw [expectClosing_run_ok closing] at ran
    cases ran
  · rw [expectClosing_run_error closing] at ran
    cases ran
    exact ⟨closing, rfl, rfl⟩

theorem nested_run_error_cases {α : Type} {step : ParserM α} {parser after : Parser}
    {error : ParseError} (ran : nested step parser = .error error after) :
    maxNesting ≤ parser.depth ∧ error = .tooDeep maxNesting ∧ after = parser ∨
      ∃ inner, step parser.descend = .error error inner ∧ after = inner.ascend := by
  by_cases shallow : parser.depth < maxNesting
  · cases inner : step parser.descend with
    | ok value final =>
        rw [nested_run_ok shallow inner] at ran
        cases ran
    | error error final =>
        rw [nested_run_error shallow inner] at ran
        cases ran
        exact .inr ⟨final, rfl, rfl⟩
  · rw [nested_run_refused shallow] at ran
    cases ran
    exact .inl ⟨Nat.not_lt.mp shallow, rfl, rfl⟩

theorem Parser.eq_cons_of_lookahead {parser : Parser} {last token : Token} {rest : List Token}
    (spelled : parser.tokens = last :: rest) (next : parser.lookahead = token)
    (inside : token ≠ .endOfInput) : ∃ tail, rest = token :: tail := by
  cases rest with
  | nil =>
      simp only [Parser.lookahead, spelled, List.tail_cons, List.headD_nil] at next
      exact absurd next.symm inside
  | cons head tail =>
      simp only [Parser.lookahead, spelled, List.tail_cons, List.headD_cons] at next
      exact ⟨tail, by rw [next]⟩

theorem Parser.eq_cons_of_current {parser : Parser} {token : Token}
    (current : parser.current = token) (inside : token ≠ .endOfInput) :
    ∃ tail, parser.tokens = token :: tail := by
  cases shape : parser.tokens with
  | nil =>
      simp only [Parser.current, shape, List.headD_nil] at current
      exact absurd current.symm inside
  | cons head tail =>
      simp only [Parser.current, shape, List.headD_cons] at current
      exact ⟨tail, by rw [current]⟩

theorem Precedence.le_call (precedence : Precedence) : precedence ≤ .call := by
  cases precedence <;> decide

section Rules

variable {operand : Precedence → ParserM Node} (reads : ReadsPhrases operand)
include reads

/-!
## How an expression begins
-/

theorem parseSigned_operand_hasRead {sign : Sign} {parser middle : Parser} {inner : Node}
    (current : parser.current = sign.token)
    (ran : operand .sign parser.advance = .ok inner middle) (height : Nat) :
    ∃ phrase, HasRead parser { expr := .signed sign inner.expr, height } .unary phrase middle := by
  obtain ⟨nonterminal, phrase, read, reach, follows⟩ := reads (Nat.le_refl _) ran
  obtain ⟨rest, spelled, final⟩ := read.spells.exists_rest
  obtain ⟨tail, shape⟩ := Parser.eq_cons_of_current current (by cases sign <;> simp [Sign.token])
  refine ⟨.signed sign phrase, .signed (read.derived.loosen ?_), ⟨rest, ?_, final⟩, ?_, follows⟩
  · cases nonterminal <;> first | decide | exact absurd reach (by decide)
  · simp only [Parser.advance, shape, List.tail_cons] at spelled
    rw [shape, spelled, Phrase.tokens, List.cons_append]
  · rw [read.tree, Phrase.tree]

theorem parseSigned_hasRead {sign : Sign} {parser after : Parser} {node : Node}
    (current : parser.current = sign.token)
    (ran : parseSigned operand sign parser = .ok node after) :
    ∃ phrase, HasRead parser node .unary phrase after := by
  rw [parseSigned_run] at ran
  obtain ⟨inner, middle, innerRan, built⟩ := bind_run_ok_components ran
  obtain ⟨rfl, rfl, -⟩ := branch_run_ok_components built
  exact parseSigned_operand_hasRead reads current innerRan _

theorem parseGroup_hasRead {parser after : Parser} {node : Node}
    (current : parser.current = .leftParen)
    (ran : parseGroup operand parser = .ok node after) :
    ∃ phrase, HasRead parser node .primary phrase after := by
  rw [parseGroup_run] at ran
  obtain ⟨inner, middle, innerRan, closed⟩ := bind_run_ok_components ran
  obtain ⟨_, final, closing, built⟩ := bind_run_ok_components closed
  obtain ⟨isClosing, rfl⟩ := expectClosing_run_ok_components closing
  cases built
  obtain ⟨nonterminal, phrase, read, -, -⟩ := reads (by decide) innerRan
  obtain ⟨rest, spelled, ends⟩ := read.spells.exists_rest
  obtain ⟨tail, shape⟩ := Parser.eq_cons_of_current current (by simp)
  obtain ⟨behind, rfl⟩ := Parser.eq_cons_of_lookahead ends isClosing (by simp)
  simp only [Parser.advance, shape, List.tail_cons] at spelled
  refine ⟨.group phrase, .group read.derived.toSum, ⟨behind, ?_, ?_⟩, ?_, ?_⟩
  · simp [shape, spelled, Phrase.tokens]
  · simp [Parser.advance, ends, Phrase.last]
  · rw [read.tree, Phrase.tree]
  · exact Precedence.le_call _

/-- An expression begins with a phrase that nothing but a call can extend from within. -/
theorem parsePrimary_hasRead {parser after : Parser} {node : Node}
    (ran : parsePrimary operand parser = .ok node after) :
    ∃ nonterminal phrase, HasRead parser node nonterminal phrase after ∧
      .sign ≤ nonterminal.threshold := by
  rw [parsePrimary_run] at ran
  split at ran
  next value current =>
    cases ran
    obtain ⟨rest, shape⟩ := Parser.eq_cons_of_current current (by simp)
    exact ⟨.primary, .number value, ⟨.number, ⟨rest, shape, shape⟩, rfl,
      Precedence.le_call _⟩, by decide⟩
  next name current =>
    cases ran
    obtain ⟨rest, shape⟩ := Parser.eq_cons_of_current current (by simp)
    exact ⟨.primary, .identifier name, ⟨.identifier, ⟨rest, shape, shape⟩, rfl,
      Precedence.le_call _⟩, by decide⟩
  next current =>
    obtain ⟨phrase, read⟩ := parseSigned_hasRead reads current ran
    exact ⟨.unary, phrase, read, by decide⟩
  next current =>
    obtain ⟨phrase, read⟩ := parseSigned_hasRead reads current ran
    exact ⟨.unary, phrase, read, by decide⟩
  next current =>
    obtain ⟨phrase, read⟩ := parseGroup_hasRead reads current ran
    exact ⟨.primary, phrase, read, by decide⟩
  next => cases ran
  next => cases ran

/-!
## How an expression goes on
-/

theorem parseBinary_operand_hasRead {operator : Operator} {start parser middle : Parser}
    {left right : Node} {nonterminal : Nonterminal} {phrase : Phrase}
    (read : HasRead start left nonterminal phrase parser)
    (next : parser.lookahead = operator.token)
    (ran : operand operator.rightPrecedence parser.advance.advance = .ok right middle)
    (height : Nat) :
    ∃ extended, HasRead start { expr := .binary left.expr operator right.expr, height }
      operator.whole extended middle := by
  obtain ⟨rightNonterminal, rightPhrase, rightRead, reaches, follows⟩ :=
    reads (by cases operator <;> decide) ran
  obtain ⟨rest, spelled, ends⟩ := read.spells.exists_rest
  obtain ⟨tail, rfl⟩ := Parser.eq_cons_of_lookahead ends next
    (by cases operator <;> simp [Operator.token])
  obtain ⟨behind, rightSpelled, final⟩ := rightRead.spells.exists_rest
  simp only [Parser.advance, ends, List.tail_cons] at rightSpelled
  refine ⟨.binary phrase operator rightPhrase,
    read.derived.binary rightRead.derived (next ▸ read.follows) reaches,
    ⟨behind, ?_, final⟩, ?_, operator.follow_whole ▸ follows⟩
  · simp [spelled, rightSpelled, Phrase.tokens]
  · rw [read.tree, rightRead.tree, Phrase.tree]

private theorem parseBinary_hasRead {operator : Operator} {start parser after : Parser}
    {left node : Node} {nonterminal : Nonterminal} {phrase : Phrase}
    (read : HasRead start left nonterminal phrase parser)
    (next : parser.lookahead = operator.token)
    (ran : parseBinary operand left operator parser.advance = .ok node after) :
    ∃ extended, HasRead start node operator.whole extended after := by
  rw [parseBinary_run] at ran
  obtain ⟨right, middle, rightRan, built⟩ := bind_run_ok_components ran
  obtain ⟨rfl, rfl, -⟩ := branch_run_ok_components built
  exact parseBinary_operand_hasRead reads read next rightRan _

/-- The loop over arguments stops behind arguments that are all phrases. -/
theorem parseArgumentsWithin_hasRead {bound : List Token} {read exprs : List Expr}
    {tallest height : Nat} {parser after : Parser} (nonempty : parser.tokens ≠ [])
    (longEnough : parser.tokens.length ≤ bound.length)
    (ran : parseArgumentsWithin operand bound read tallest parser = .ok (exprs, height) after) :
    ∃ argument arguments separator last rest,
      parser.tokens = separator ::
        (Phrase.tokens argument ++ (Phrase.furtherTokens arguments ++ rest)) ∧
      after.tokens = last :: rest ∧
      exprs = read.reverse ++ Phrase.trees (argument :: arguments) ∧
      ∀ phrase ∈ argument :: arguments, Derives .sum phrase := by
  induction bound generalizing read tallest parser with
  | nil => exact absurd (List.length_eq_zero_iff.mp (Nat.le_zero.mp longEnough)) nonempty
  | cons token bound ih =>
      rw [parseArgumentsWithin_run_cons] at ran
      obtain ⟨argument, middle, argumentRan, further⟩ := bind_run_ok_components ran
      obtain ⟨nonterminal, phrase, argumentRead, -, -⟩ := reads (by decide) argumentRan
      obtain ⟨rest, spelled, ends⟩ := argumentRead.spells.exists_rest
      obtain ⟨separator, tail, shape⟩ := List.exists_cons_of_ne_nil nonempty
      simp only [Parser.advance, shape, List.tail_cons] at spelled
      split at further
      next comma =>
        obtain ⟨behind, rfl⟩ := Parser.eq_cons_of_lookahead ends comma (by simp)
        have advanced : middle.advance.tokens = .comma :: behind := by
          simp [Parser.advance, ends]
        obtain ⟨second, arguments, between, last, final, front, back, inOrder, derived⟩ :=
          ih (by simp [advanced]) (by
            simp only [shape, spelled, advanced, List.length_cons, List.length_append]
              at longEnough ⊢
            omega) further
        rw [advanced] at front
        obtain ⟨rfl, rfl⟩ := List.cons.inj front
        refine ⟨phrase, second :: arguments, separator, last, final, ?_, back, ?_, ?_⟩
        · simp [shape, spelled, Phrase.furtherTokens]
        · simp [inOrder, argumentRead.tree, Phrase.trees]
        · exact List.forall_mem_cons.mpr ⟨argumentRead.derived.toSum, derived⟩
      next =>
        cases further
        refine ⟨phrase, [], separator, phrase.last, rest, ?_, ends, ?_, ?_⟩
        · simp [shape, spelled, Phrase.furtherTokens]
        · simp [argumentRead.tree, Phrase.trees]
        · simpa using argumentRead.derived.toSum

private theorem parseArguments_hasRead {exprs : List Expr} {height : Nat} {parser after : Parser}
    (current : parser.current = .leftParen)
    (ran : parseArguments operand parser = .ok (exprs, height) after) :
    ∃ arguments rest,
      parser.tokens = .leftParen :: (Phrase.argumentTokens arguments ++ .rightParen :: rest) ∧
      after.tokens = .rightParen :: rest ∧ exprs = Phrase.trees arguments ∧
      ∀ phrase ∈ arguments, Derives .sum phrase := by
  obtain ⟨tail, shape⟩ := Parser.eq_cons_of_current current (by simp)
  by_cases closing : parser.lookahead = .rightParen
  · rw [parseArguments_run_empty closing] at ran
    cases ran
    obtain ⟨rest, rfl⟩ := Parser.eq_cons_of_lookahead shape closing (by simp)
    exact ⟨[], rest, shape, by simp [Parser.advance, shape], rfl, by simp⟩
  · rw [parseArguments_run closing] at ran
    obtain ⟨⟨read, tallest⟩, middle, loop, closed⟩ := bind_run_ok_components ran
    obtain ⟨_, final, closingRan, built⟩ := bind_run_ok_components closed
    obtain ⟨isClosing, rfl⟩ := expectClosing_run_ok_components closingRan
    cases built
    obtain ⟨argument, arguments, separator, last, rest, front, back, inOrder, derived⟩ :=
      parseArgumentsWithin_hasRead reads (by simp [shape]) (Nat.le_refl _) loop
    obtain ⟨behind, rfl⟩ := Parser.eq_cons_of_lookahead back isClosing (by simp)
    have opening : separator = .leftParen := (List.cons.inj (front.symm.trans shape)).1
    refine ⟨argument :: arguments, behind, ?_, by simp [Parser.advance, back], inOrder, derived⟩
    simp [front, opening, Phrase.argumentTokens]

omit reads in
theorem HasRead.application {start parser : Parser} {function : Node}
    {nonterminal : Nonterminal} {phrase : Phrase}
    (read : HasRead start function nonterminal phrase parser)
    (next : parser.lookahead = .leftParen) : Derives .application phrase := by
  have drawn := next ▸ read.follows
  refine read.derived.loosen ?_
  cases nonterminal <;> first | decide | exact absurd drawn (by decide)

theorem parseCall_arguments_hasRead {start parser middle : Parser} {function : Node}
    {nonterminal : Nonterminal} {phrase : Phrase} {exprs : List Expr} {tallest : Nat}
    (read : HasRead start function nonterminal phrase parser)
    (next : parser.lookahead = .leftParen)
    (ran : parseArguments operand parser.advance = .ok (exprs, tallest) middle) (height : Nat) :
    ∃ extended, HasRead start { expr := .call function.expr exprs, height } .application extended
      middle := by
  obtain ⟨rest, spelled, ends⟩ := read.spells.exists_rest
  obtain ⟨tail, rfl⟩ := Parser.eq_cons_of_lookahead ends next (by simp)
  have advanced : parser.advance.tokens = .leftParen :: tail := by simp [Parser.advance, ends]
  obtain ⟨arguments, behind, front, back, inOrder, derived⟩ :=
    parseArguments_hasRead reads (Parser.current_eq advanced) ran
  obtain ⟨-, rfl⟩ := List.cons.inj (advanced.symm.trans front)
  refine ⟨.call phrase arguments, .call (read.application next) derived,
    ⟨behind, ?_, back⟩, ?_, Precedence.le_call _⟩
  · simp [spelled, Phrase.tokens]
  · rw [read.tree, inOrder, Phrase.tree]

private theorem parseCall_hasRead {start parser after : Parser} {function node : Node}
    {nonterminal : Nonterminal} {phrase : Phrase}
    (read : HasRead start function nonterminal phrase parser)
    (next : parser.lookahead = .leftParen)
    (ran : parseCall operand function parser.advance = .ok node after) :
    ∃ extended, HasRead start node .application extended after := by
  rw [parseCall_run] at ran
  obtain ⟨⟨exprs, height⟩, middle, argumentsRan, built⟩ := bind_run_ok_components ran
  obtain ⟨rfl, rfl, -⟩ := branch_run_ok_components built
  exact parseCall_arguments_hasRead reads read next argumentsRan _

/-- One turn of the loop makes a longer phrase, at a nonterminal that the threshold admits. -/
theorem parseExtension_hasRead {threshold : Precedence} {start parser after : Parser}
    {left node : Node} {nonterminal : Nonterminal} {phrase : Phrase}
    (read : HasRead start left nonterminal phrase parser)
    (continues : threshold < Precedence.of parser.lookahead)
    (ran : parseExtension operand left parser.advance = .ok node after) :
    ∃ whole extended, HasRead start node whole extended after ∧ threshold ≤ whole.threshold := by
  obtain next | ⟨operator, next⟩ := Token.binds_cases continues
  · have current : parser.advance.current = .leftParen := next
    rw [parseExtension_run_call current] at ran
    rw [next] at continues
    obtain ⟨extended, longer⟩ := parseCall_hasRead reads read next ran
    exact ⟨.application, extended, longer, Nat.le_of_lt_succ continues⟩
  · have current : parser.advance.current = operator.token := next
    rw [parseExtension_run_binary current] at ran
    rw [next] at continues
    obtain ⟨extended, longer⟩ := parseBinary_hasRead reads read next ran
    exact ⟨operator.whole, extended, longer, Operator.le_threshold_whole continues⟩

private theorem climbWithin_hasRead {threshold : Precedence} {bound : List Token}
    {start parser after : Parser} {left node : Node} {nonterminal : Nonterminal} {phrase : Phrase}
    (consumes : ∀ threshold, ConsumesOnly (operand threshold))
    (read : HasRead start left nonterminal phrase parser)
    (reaches : threshold ≤ nonterminal.threshold)
    (longEnough : parser.tokens.length ≤ bound.length)
    (ran : climbWithin operand threshold bound left parser = .ok node after) :
    ∃ whole extended, HasRead start node whole extended after ∧ threshold ≤ whole.threshold ∧
      Precedence.of after.lookahead ≤ threshold := by
  by_cases continues : threshold < Precedence.of parser.lookahead
  · have shorter := advance_tokens_length_lt continues
    induction bound generalizing left parser nonterminal phrase with
    | nil => exact absurd (Nat.lt_of_lt_of_le shorter longEnough) (Nat.not_lt_zero _)
    | cons token bound ih =>
        rw [climbWithin_run_cons, if_pos continues] at ran
        obtain ⟨extended, middle, extension, further⟩ := bind_run_ok_components ran
        obtain ⟨whole, longer, wholeRead, wholeReaches⟩ :=
          parseExtension_hasRead reads read continues extension
        have fewer :=
          ((parseExtension_consumesOnly consumes left).of_ok extension).tokens.length_le
        rw [List.length_cons] at longEnough
        by_cases again : threshold < Precedence.of middle.lookahead
        · exact ih wholeRead wholeReaches (by omega) further again
            (advance_tokens_length_lt again)
        · rw [climbWithin_run_stop again] at further
          cases further
          exact ⟨whole, longer, wholeRead, wholeReaches, Nat.not_lt.mp again⟩
  · rw [climbWithin_run_stop continues] at ran
    cases ran
    exact ⟨nonterminal, phrase, read, reaches, Nat.not_lt.mp continues⟩

private theorem parseClimbing_hasRead {threshold : Precedence} {parser after : Parser} {node : Node}
    (consumes : ∀ threshold, ConsumesOnly (operand threshold)) (reachable : threshold ≤ .sign)
    (ran : parseClimbing operand threshold parser = .ok node after) :
    ∃ nonterminal phrase, HasRead parser node nonterminal phrase after ∧
      threshold ≤ nonterminal.threshold ∧ Precedence.of after.lookahead ≤ threshold := by
  rw [parseClimbing_run] at ran
  obtain ⟨left, middle, primary, climbed⟩ := bind_run_ok_components ran
  obtain ⟨nonterminal, phrase, read, tight⟩ := parsePrimary_hasRead reads primary
  exact climbWithin_hasRead reads consumes read (Nat.le_trans reachable tight) (Nat.le_refl _)
    climbed

end Rules

theorem parseWithin_readsPhrases (levels : Nat) : ReadsPhrases (parseWithin levels) := by
  induction levels with
  | zero =>
      intro threshold parser after node reachable ran
      cases ran
  | succ levels ih =>
      intro threshold parser after node reachable ran
      obtain ⟨inner, climbed, rfl⟩ := nested_run_ok_components ran
      obtain ⟨nonterminal, phrase, read, reaches, ends⟩ :=
        parseClimbing_hasRead ih (parseWithin_consumesOnly levels) reachable climbed
      exact ⟨nonterminal, phrase, ⟨read.derived, ⟨read.spells.exists_rest⟩, read.tree,
        read.follows⟩, reaches, ends⟩

end Calculator
