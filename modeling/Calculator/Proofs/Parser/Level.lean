import Calculator.Proofs.Parser.Soundness

/-!
# Reading at a level of precedence

Each level stands for a nonterminal, and reading at a level comes to the longest beginning of the
tokens that this nonterminal derives. Levels for operators line up with the thresholds of
nonterminals. The tightest level does not: it extends nothing, and so takes no call behind a number,
a name or a group, while the operand of a sign takes its calls in at every level.
-/

set_option autoImplicit false

namespace Calculator

/-!
## Levels and phrases
-/

namespace Precedence

/-- The phrases that are read at a level. -/
def Reads : Precedence → Phrase → Prop
  | .lowest, phrase => Derives .sum phrase
  | .sum, phrase => Derives .product phrase
  | .product, phrase => Derives .power phrase
  | .exponent, phrase => Derives .unary phrase
  | .sign, phrase => Derives .unary phrase
  | .call, phrase =>
      Derives .primary phrase ∨ ∃ sign operand, phrase = .signed sign operand ∧ Derives .unary operand

/-- A phrase ends in front of a token that binds no tighter than the level. Behind a sign that must
not be a call either, as it would belong to the operand of the sign. -/
structure Ends (threshold : Precedence) (phrase : Phrase) (next : Token) : Prop where
  loose : Precedence.of next ≤ threshold
  uncalled : threshold = .call → (∃ sign : Sign, phrase.tokens.head? = some sign.token) →
    next ≠ .leftParen

theorem Ends.of_le {threshold : Precedence} {phrase : Phrase} {next : Token}
    (reachable : threshold ≤ .sign) (loose : Precedence.of next ≤ threshold) :
    threshold.Ends phrase next :=
  ⟨loose, fun same => absurd (same ▸ reachable) (by decide)⟩

private theorem of_le_sign {token : Token} (other : token ≠ .leftParen) :
    Precedence.of token ≤ .sign := by
  cases token with
  | leftParen => exact absurd rfl other
  | plus | minus | star | slash | starStar => decide
  | _ => exact Nat.zero_le _

private theorem ne_leftParen {token : Token} (loose : Precedence.of token ≤ .sign) :
    token ≠ .leftParen := by
  intro same
  subst same
  exact absurd loose (by decide)

private theorem le_sign_of_ne_call {threshold : Precedence} (other : threshold ≠ .call) :
    threshold ≤ .sign := by
  cases threshold with
  | call => exact absurd rfl other
  | _ => decide

/-- No phrase is read at a threshold between the levels of powers and of signs. -/
theorem reads_of_derives {threshold : Precedence} {nonterminal : Nonterminal} {phrase : Phrase}
    (derived : Derives nonterminal phrase) (reachable : threshold ≤ .sign)
    (reaches : threshold ≤ nonterminal.threshold) : threshold.Reads phrase := by
  cases threshold with
  | lowest => exact derived.toSum
  | sum => exact derived.loosen (Nonterminal.rank_le_rank reaches (by simp))
  | product => exact derived.loosen (Nonterminal.rank_le_rank reaches (by simp))
  | exponent =>
      refine derived.loosen (Nonterminal.rank_le_rank ?_ (by simp))
      cases nonterminal <;> first | decide | exact absurd reaches (by decide)
  | sign => exact derived.loosen (Nonterminal.rank_le_rank reaches (by simp))
  | call => exact absurd reachable (by decide)

end Precedence

/-!
## Phrases that begin with a sign
-/

private theorem Derives.head_ne_sign {phrase : Phrase} (derived : Derives .application phrase)
    (sign : Sign) : phrase.tokens.head? ≠ some sign.token := by
  have other (token : Token) (named : token ≠ .plus ∧ token ≠ .minus) :
      some token ≠ some sign.token := by
    cases sign <;> simp_all [Sign.token]
  cases phrase with
  | number value => exact other _ (by simp)
  | identifier name => exact other _ (by simp)
  | group inner => exact other _ (by simp)
  | signed | binary =>
      cases derived with
      | ofPrimary derived => cases derived
  | call function arguments =>
      cases derived with
      | ofPrimary derived => cases derived
      | call functionDerived _ =>
          have begun := functionDerived.head_ne_sign sign
          rcases function.tokens_eq_cons with ⟨token, rest, spelled, -⟩
          simpa [Phrase.tokens, spelled] using begun

private theorem Derives.eq_signed {phrase : Phrase} {sign : Sign} (derived : Derives .unary phrase)
    (begun : phrase.tokens.head? = some sign.token) :
    ∃ sign operand, phrase = .signed sign operand ∧ Derives .unary operand := by
  cases derived with
  | signed operandDerived => exact ⟨_, _, rfl, operandDerived⟩
  | ofApplication application => exact absurd begun (application.head_ne_sign sign)

private theorem Phrase.head?_tokens {phrase : Phrase} {parser : Parser} {rest : List Token}
    (spelled : parser.tokens = phrase.tokens ++ rest) :
    phrase.tokens.head? = some parser.current := by
  rcases phrase.tokens_eq_cons with ⟨token, tail, shape, -⟩
  simp [Parser.current, spelled, shape]

/-!
## The tightest level
-/

section Tightest

variable {operand : Precedence → ParserM Node} {parser : Parser}

private theorem parseClimbing_run_call :
    parseClimbing operand .call parser = parsePrimary operand parser := by
  rw [parseClimbing_run]
  cases ran : parsePrimary operand parser with
  | ok left middle =>
      have stops : ¬ Precedence.call < Precedence.of middle.lookahead :=
        Nat.not_lt.mpr (Precedence.le_call _)
      rw [bind_run_ok ran, climb_run_stop stops]
  | error error middle => rw [bind_run_error ran]

/-- Behind a sign and its operand nothing is left that binds tighter than a sign. -/
theorem parseClimbing_run_sign (reads : ReadsPhrases operand) {sign : Sign}
    (current : parser.current = sign.token) :
    parseClimbing operand .sign parser = parsePrimary operand parser := by
  rw [parseClimbing_run]
  cases ran : parsePrimary operand parser with
  | ok left middle =>
      have rule : parsePrimary operand parser = parseSigned operand sign parser := by
        rw [parsePrimary_run, current]
        cases sign <;> rfl
      rcases parseSigned_hasRead reads current (rule.symm.trans ran) with ⟨phrase, read⟩
      have stops : ¬ Precedence.sign < Precedence.of middle.lookahead :=
        Nat.not_lt.mpr read.follows
      rw [bind_run_ok ran, climb_run_stop stops]
  | error error middle => rw [bind_run_error ran]

private theorem parsePrimary_hasRead_of_unsigned (reads : ReadsPhrases operand) {after : Parser}
    {node : Node} (unsigned : ∀ sign : Sign, parser.current ≠ sign.token)
    (ran : parsePrimary operand parser = .ok node after) :
    ∃ phrase, HasRead parser node .primary phrase after := by
  rw [parsePrimary_run] at ran
  split at ran
  next value current =>
    cases ran
    rcases Parser.eq_cons_of_current current (by simp) with ⟨rest, shape⟩
    exact ⟨.number value, .number, ⟨rest, shape, shape⟩, rfl, Precedence.le_call _⟩
  next name current =>
    cases ran
    rcases Parser.eq_cons_of_current current (by simp) with ⟨rest, shape⟩
    exact ⟨.identifier name, .identifier, ⟨rest, shape, shape⟩, rfl, Precedence.le_call _⟩
  next current => exact absurd current (unsigned .plus)
  next current => exact absurd current (unsigned .minus)
  next current => exact parseGroup_hasRead reads current ran
  next => cases ran
  next => cases ran

end Tightest

private theorem parseWithin_run_call (levels : Nat) {parser : Parser} {sign : Sign}
    (current : parser.current = sign.token) :
    parseWithin levels .call parser = parseWithin levels .sign parser := by
  cases levels with
  | zero => rfl
  | succ levels =>
      have reads : ReadsPhrases (parseWithin levels) := parseWithin_readsPhrases levels
      have inside : parser.descend.current = sign.token := current
      exact nested_run_congr
        (parseClimbing_run_call.trans (parseClimbing_run_sign reads inside).symm)

/-!
## What is read at a level
-/

section Levels

variable {threshold : Precedence} {parser : Parser}

private theorem Precedence.Reads.yields {phrase : Phrase} {rest : List Token}
    (reads : threshold.Reads phrase) (spelled : parser.tokens = phrase.tokens ++ rest)
    (ends : threshold.Ends phrase (rest.headD .endOfInput)) :
    Yields (phrase.FitsWithin parser.depth) (parseWithin maxNesting threshold parser)
      (.ok phrase.node { parser with tokens := phrase.last :: rest }) := by
  have enough : maxNesting ≤ parser.depth + maxNesting := Nat.le_add_left _ _
  cases threshold with
  | lowest => exact Climbs.operand reads.climbs _ _ _ enough (by decide) spelled ends.loose
  | sum => exact Climbs.operand reads.climbs _ _ _ enough (by decide) spelled ends.loose
  | product => exact Climbs.operand reads.climbs _ _ _ enough (by decide) spelled ends.loose
  | exponent => exact Climbs.operand reads.climbs _ _ _ enough (by decide) spelled ends.loose
  | sign => exact Climbs.operand reads.climbs _ _ _ enough (by decide) spelled ends.loose
  | call =>
      rcases reads with primary | ⟨sign, operand, shape, derived⟩
      · exact primary.climbs.operand _ _ _ enough (by decide) spelled ends.loose
      · subst shape
        have current : parser.current = sign.token := Parser.current_eq spelled
        have next := Precedence.of_le_sign (ends.uncalled rfl ⟨sign, rfl⟩)
        rw [parseWithin_run_call maxNesting current]
        exact derived.signed.climbs.operand _ _ _ enough (by decide) spelled next

/-- Whatever is read at a level is a phrase of this level that ends. -/
theorem parseWithin_reads {levels : Nat} {after : Parser} {node : Node}
    (ran : parseWithin levels threshold parser = .ok node after) :
    ∃ phrase rest, threshold.Reads phrase ∧ parser.tokens = phrase.tokens ++ rest ∧
      threshold.Ends phrase (rest.headD .endOfInput) := by
  have ended {phrase : Phrase} {rest : List Token} (final : after.tokens = phrase.last :: rest) :
      rest.headD .endOfInput = after.lookahead := by
    simp [Parser.lookahead, final]
  by_cases tightest : threshold = .call
  · subst tightest
    by_cases signed : ∃ sign : Sign, parser.current = sign.token
    · rcases signed with ⟨sign, current⟩
      rw [parseWithin_run_call levels current] at ran
      rcases parseWithin_readsPhrases levels (by decide) ran with
        ⟨nonterminal, phrase, read, reaches, loose⟩
      rcases read.spells.exists_rest with ⟨rest, spelled, final⟩
      have derived : Precedence.sign.Reads phrase :=
        Precedence.reads_of_derives read.derived (by decide) reaches
      have begun := (Phrase.head?_tokens spelled).trans (congrArg some current)
      refine ⟨phrase, rest, .inr (derived.eq_signed begun), spelled, Precedence.le_call _, ?_⟩
      intro _ _
      rw [ended final]
      exact Precedence.ne_leftParen loose
    · cases levels with
      | zero => cases ran
      | succ levels =>
          rcases nested_run_ok_components ran with ⟨inner, climbed, same⟩
          subst same
          have reads : ReadsPhrases (parseWithin levels) := parseWithin_readsPhrases levels
          have unsigned (sign : Sign) : parser.descend.current ≠ sign.token :=
            fun current => signed ⟨sign, current⟩
          rw [parseClimbing_run_call] at climbed
          rcases parsePrimary_hasRead_of_unsigned reads unsigned climbed with ⟨phrase, read⟩
          rcases read.spells.exists_rest with ⟨rest, spelled, final⟩
          refine ⟨phrase, rest, .inl read.derived, spelled, Precedence.le_call _, ?_⟩
          intro _ begins
          rcases begins with ⟨sign, begun⟩
          have current : parser.current = sign.token :=
            Option.some.inj ((Phrase.head?_tokens spelled).symm.trans begun)
          exact absurd ⟨sign, current⟩ signed
  · have reachable := Precedence.le_sign_of_ne_call tightest
    rcases parseWithin_readsPhrases levels reachable ran with
      ⟨nonterminal, phrase, read, reaches, loose⟩
    rcases read.spells.exists_rest with ⟨rest, spelled, final⟩
    have reads := Precedence.reads_of_derives read.derived reachable reaches
    refine ⟨phrase, rest, reads, spelled, .of_le reachable ?_⟩
    rw [ended final]
    exact loose

theorem Precedence.Reads.parseExpression_yields {phrase : Phrase} {rest : List Token}
    (reads : threshold.Reads phrase) (spelled : parser.tokens = phrase.tokens ++ rest)
    (ends : threshold.Ends phrase (rest.headD .endOfInput)) :
    Yields (phrase.FitsWithin parser.depth) (parseExpression threshold parser)
      (.ok phrase.tree { parser with tokens := phrase.last :: rest }) := by
  rw [parseExpression_run]
  exact .congr (and_true _).symm.to_iff
    ((reads.yields spelled ends).bind fun _ => .of_eq trivial rfl)

/-- Reading at a level succeeds exactly on the phrases of this level that fit, where they end. -/
theorem parseExpression_eq_ok_iff_reads {after : Parser} {expr : Expr} :
    parseExpression threshold parser = .ok expr after ↔
      ∃ phrase rest, threshold.Reads phrase ∧ parser.tokens = phrase.tokens ++ rest ∧
        threshold.Ends phrase (rest.headD .endOfInput) ∧ phrase.FitsWithin parser.depth ∧
        expr = phrase.tree ∧ after = { parser with tokens := phrase.last :: rest } := by
  constructor
  · intro ran
    rcases bind_run_ok_components ran with ⟨node, middle, nodeRan, -⟩
    rcases parseWithin_reads nodeRan with ⟨phrase, rest, reads, spelled, ends⟩
    have yields := reads.parseExpression_yields spelled ends
    by_cases fits : phrase.FitsWithin parser.depth
    · rcases EStateM.Result.ok.inj ((yields.accepted fits).symm.trans ran) with ⟨tree, final⟩
      exact ⟨phrase, rest, reads, spelled, ends, fits, tree.symm, final.symm⟩
    · rcases yields.refused fits with ⟨failed, refused⟩
      cases refused.symm.trans ran
  · intro begins
    rcases begins with ⟨phrase, rest, reads, spelled, ends, fits, tree, final⟩
    rw [tree, final]
    exact (reads.parseExpression_yields spelled ends).accepted fits

end Levels

/-!
## The longest phrase
-/

/-- The tokens begin with a phrase of a level that fits and ends. -/
structure ReadsAt (threshold : Precedence) (tokens : List Token) (phrase : Phrase)
    (rest : List Token) : Prop where
  spelled : tokens = phrase.tokens ++ rest
  reads : threshold.Reads phrase
  ends : threshold.Ends phrase (rest.headD .endOfInput)
  fits : phrase.FitsWithin 0

namespace ReadsAt

variable {threshold : Precedence} {tokens rest otherRest : List Token} {phrase other : Phrase}

theorem parseExpression_run (read : ReadsAt threshold tokens phrase rest) (errors : Array ParseError) :
    parseExpression threshold { tokens, errors } =
      .ok phrase.tree { tokens := phrase.last :: rest, errors } :=
  (read.reads.parseExpression_yields read.spelled read.ends).accepted read.fits

theorem unique (read : ReadsAt threshold tokens phrase rest)
    (again : ReadsAt threshold tokens other otherRest) :
    other.tokens = phrase.tokens ∧ other.tree = phrase.tree := by
  have same := (again.parseExpression_run #[]).symm.trans (read.parseExpression_run #[])
  rcases EStateM.Result.ok.inj same with ⟨tree, final⟩
  have rests : otherRest = rest := (List.cons.inj (congrArg Parser.tokens final)).2
  subst rests
  exact ⟨List.append_cancel_right (again.spelled.symm.trans read.spelled), tree⟩

/-- A longer phrase would have to go on with a token that does not continue the shorter one. -/
theorem longest (read : ReadsAt threshold tokens phrase rest) (reads : threshold.Reads other)
    (spelled : tokens = other.tokens ++ otherRest) :
    other.tokens.length ≤ phrase.tokens.length := by
  refine Nat.not_lt.mp fun longer => ?_
  have whole := read.spelled.symm.trans spelled
  rcases List.append_eq_append_iff.mp whole with ⟨excess, goesOn, shape⟩ | ⟨excess, goesOn, -⟩
  · cases excess with
    | nil => simp [goesOn] at longer
    | cons next more =>
        have shorter : ReadsAt threshold other.tokens phrase (next :: more) :=
          ⟨goesOn, read.reads, by simpa [shape] using read.ends, read.fits⟩
        have ran := shorter.parseExpression_run #[]
        have alone : threshold.Ends other ([].headD .endOfInput) :=
          ⟨Nat.zero_le _, fun _ _ => by simp⟩
        have whole : Parser.tokens { tokens := other.tokens } = other.tokens ++ [] :=
          (List.append_nil _).symm
        have yields := reads.parseExpression_yields whole alone
        by_cases fits : other.FitsWithin 0
        · have final := (EStateM.Result.ok.inj ((yields.accepted fits).symm.trans ran)).2
          simpa using congrArg Parser.tokens final
        · rcases yields.refused fits with ⟨after, failed⟩
          cases failed.symm.trans ran
  · have shorter : other.tokens.length ≤ phrase.tokens.length := by simp [goesOn]
    exact Nat.not_lt.mpr shorter longer

end ReadsAt

/-- Reading at a level succeeds exactly if the tokens begin with a phrase of this level that fits and
that ends in front of what follows. There is one such beginning, the longest of all that the level
derives, and the parser is left at its last token. -/
theorem parseExpression_reads_longest (threshold : Precedence) (tokens : List Token)
    (errors : Array ParseError) :
    (∀ expr, (∃ after, parseExpression threshold { tokens, errors } = .ok expr after) ↔
      ∃ phrase rest, ReadsAt threshold tokens phrase rest ∧ expr = phrase.tree) ∧
    ∀ phrase rest, ReadsAt threshold tokens phrase rest →
      (∀ other otherRest, ReadsAt threshold tokens other otherRest →
        other.tokens = phrase.tokens ∧ other.tree = phrase.tree) ∧
      (∀ other otherRest, threshold.Reads other → tokens = other.tokens ++ otherRest →
        other.tokens.length ≤ phrase.tokens.length) ∧
      ∀ expr after, parseExpression threshold { tokens, errors } = .ok expr after →
        phrase.tokens.getLast? = some after.current ∧
          after.lookahead = rest.headD .endOfInput := by
  refine ⟨fun expr => ⟨?_, ?_⟩, fun phrase rest read => ⟨?_, ?_, ?_⟩⟩
  · intro succeeds
    rcases succeeds with ⟨after, ran⟩
    rcases parseExpression_eq_ok_iff_reads.mp ran with
      ⟨phrase, rest, reads, spelled, ends, fits, tree, -⟩
    exact ⟨phrase, rest, ⟨spelled, reads, ends, fits⟩, tree⟩
  · intro begins
    rcases begins with ⟨phrase, rest, read, same⟩
    exact ⟨_, same ▸ read.parseExpression_run errors⟩
  · exact fun other otherRest again => read.unique again
  · exact fun other otherRest reads spelled => read.longest reads spelled
  · intro expr after ran
    cases (read.parseExpression_run errors).symm.trans ran
    exact ⟨phrase.getLast?_tokens, rfl⟩

end Calculator
