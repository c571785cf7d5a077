import Calculator.Proofs.Parser.Recovery

/-!
# What a text writes

The parser agrees with the grammar on whole texts. Where the tokens of a text split into sums, the
turns of the parser are these sums, up to the first one that does not fit. Conversely, where no turn
fails, the turns are sums that split the tokens.
-/

set_option autoImplicit false

namespace Calculator

/-!
## Splits, sum by sum
-/

private theorem Token.of_le_lowest_iff {token : Token} (begins : token.beginsPhrase = true) :
    Precedence.of token ≤ .lowest ↔
      (∃ value, token = .number value) ∨ ∃ name, token = .identifier name := by
  cases token with
  | number value => exact iff_of_true (Nat.le_refl _) (.inl ⟨value, rfl⟩)
  | identifier name => exact iff_of_true (Nat.le_refl _) (.inr ⟨name, rfl⟩)
  | plus | minus | leftParen => exact iff_of_false (by decide) (by simp)
  | _ => cases begins

namespace Splits

variable {phrase : Phrase} {phrases : List Phrase} {tokens : List Token}

theorem nil : Splits [] [] := ⟨by simp, by simp, rfl⟩

/-- What stands behind the first sum does not continue it. -/
theorem uncons (split : Splits (phrase :: phrases) tokens) :
    ∃ rest, Derives .sum phrase ∧ tokens = phrase.tokens ++ rest ∧
      Precedence.of (rest.headD .endOfInput) ≤ .lowest ∧ Splits phrases rest := by
  obtain ⟨derived, separated, spelled⟩ := split
  obtain ⟨first, further⟩ := List.forall_mem_cons.mp derived
  refine ⟨phrases.flatMap Phrase.tokens, first, spelled.symm, ?_, further, ?_, rfl⟩
  · cases phrases with
    | nil => exact Nat.le_refl _
    | cons next phrases =>
        obtain ⟨token, rest, shape, kind⟩ := separated next List.mem_cons_self
        have begins : token.beginsPhrase = true := by
          rcases kind with ⟨value, rfl⟩ | ⟨name, rfl⟩ <;> rfl
        simpa [shape] using (Token.of_le_lowest_iff begins).mpr kind
  · exact fun later member => separated later (List.mem_of_mem_tail member)

theorem cons {rest : List Token} (derived : Derives .sum phrase)
    (ends : Precedence.of (rest.headD .endOfInput) ≤ .lowest) (split : Splits phrases rest) :
    Splits (phrase :: phrases) (phrase.tokens ++ rest) := by
  obtain ⟨further, separated, rfl⟩ := split
  refine ⟨List.forall_mem_cons.mpr ⟨derived, further⟩, ?_, rfl⟩
  intro later member
  cases phrases with
  | nil => cases member
  | cons next phrases =>
      rcases List.mem_cons.mp member with rfl | member
      · obtain ⟨token, rest, shape, begins⟩ := later.tokens_eq_cons
        simp only [List.flatMap_cons, shape, List.cons_append, List.headD_cons] at ends
        exact ⟨token, rest, shape, (Token.of_le_lowest_iff begins).mp ends⟩
      · exact separated later member

theorem singleton (derived : Derives .sum phrase) : Splits [phrase] phrase.tokens := by
  have split := cons derived (Nat.le_refl _) nil
  rwa [List.append_nil] at split

end Splits

/-!
## Sums as turns
-/

def Turn.ofPhrase (phrase : Phrase) : Turn :=
  { segment := phrase.tokens, outcome := .ok phrase.tree }

namespace Turns

variable {parser final : Parser} {turns : List Turn}

theorem eq_nil (run : Turns parser turns final) (empty : parser.tokens = []) :
    turns = [] := by
  have ended : parser.current = .endOfInput := by simp [Parser.current, empty]
  cases run with
  | done => rfl
  | statement current => exact absurd ended current
  | failure current => exact absurd ended current

/-- The turns of a parser are determined by where it starts. -/
theorem unique (run : Turns parser turns final) {others : List Turn} {otherFinal : Parser}
    (again : Turns parser others otherFinal) : turns = others := by
  induction run generalizing others with
  | done current =>
      cases again with
      | done => rfl
      | statement other | failure other => exact absurd current other
  | statement current ran cut further ih =>
      cases again with
      | done other => exact absurd other current
      | statement _ otherRan otherCut otherFurther =>
          cases ran.symm.trans otherRan
          cases List.append_cancel_right (cut.symm.trans otherCut)
          rw [ih otherFurther]
      | failure _ otherRan => cases ran.symm.trans otherRan
  | failure current ran cut further ih =>
      cases again with
      | done other => exact absurd other current
      | statement _ otherRan => cases ran.symm.trans otherRan
      | failure _ otherRan otherCut otherFurther =>
          cases ran.symm.trans otherRan
          cases List.append_cancel_right (cut.symm.trans otherCut)
          rw [ih otherFurther]

private theorem exists_cons (run : Turns parser turns final) {phrase : Phrase} {rest : List Token}
    (spelled : parser.tokens = phrase.tokens ++ rest) :
    (∃ after segment expr further, turns = ⟨segment, .ok expr⟩ :: further ∧
      parseExpression .lowest parser = .ok expr after ∧
      parser.tokens = segment ++ after.advance.tokens ∧ Turns after.advance further final) ∨
    ∃ after segment error further, turns = ⟨segment, .error error⟩ :: further ∧
      parseExpression .lowest parser = .error error after := by
  cases run with
  | done current =>
      obtain ⟨token, tail, shape, begins⟩ := phrase.tokens_eq_cons
      rw [shape, List.cons_append] at spelled
      rw [Parser.current_eq spelled] at current
      cases current
      cases begins
  | statement current ran cut further => exact .inl ⟨_, _, _, _, rfl, ran, cut, further⟩
  | failure current ran cut further => exact .inr ⟨_, _, _, _, rfl, ran⟩

/-- The first turn, where a sum stands in front of a token that does not continue it. -/
theorem first (run : Turns parser turns final) {phrase : Phrase} {rest : List Token}
    (derived : Derives .sum phrase) (spelled : parser.tokens = phrase.tokens ++ rest)
    (ends : Precedence.of (rest.headD .endOfInput) ≤ .lowest) :
    (phrase.FitsWithin parser.depth → ∃ further, turns = Turn.ofPhrase phrase :: further ∧
      Turns { parser with tokens := rest } further final) ∧
    (¬ phrase.FitsWithin parser.depth → ∃ segment further,
      turns = ⟨segment, .error (.tooDeep maxNesting)⟩ :: further) := by
  have yields := parseExpression_yields derived spelled ends
  constructor
  · intro fits
    have read := yields.accepted fits
    obtain ⟨after, segment, expr, further, rfl, ran, cut, rest⟩ |
      ⟨after, segment, error, further, rfl, ran⟩ := run.exists_cons spelled
    · cases read.symm.trans ran
      have same : segment = phrase.tokens :=
        List.append_cancel_right (cut.symm.trans spelled)
      exact ⟨further, by rw [same, Turn.ofPhrase], rest⟩
    · cases read.symm.trans ran
  · intro fails
    obtain ⟨failed, read⟩ := yields.refused fails
    obtain ⟨after, segment, expr, further, rfl, ran, cut, rest⟩ |
      ⟨after, segment, error, further, rfl, ran⟩ := run.exists_cons spelled
    · cases read.symm.trans ran
    · cases read.symm.trans ran
      exact ⟨segment, further, rfl⟩

/-- Sums that fit are read one by one, and what follows them is read as it would be on its own. -/
theorem exists_further {phrases : List Phrase} {front back : List Token}
    (run : Turns parser turns final) (split : Splits phrases front)
    (fits : ∀ phrase ∈ phrases, phrase.FitsWithin parser.depth)
    (spelled : parser.tokens = front ++ back)
    (ends : Precedence.of (back.headD .endOfInput) ≤ .lowest) :
    ∃ further, turns = phrases.map Turn.ofPhrase ++ further ∧
      Turns { parser with tokens := back } further final := by
  induction phrases generalizing parser turns front with
  | nil =>
      obtain ⟨tokens, depth, errors⟩ := parser
      obtain rfl := split.spelled
      cases spelled
      exact ⟨turns, rfl, run⟩
  | cons phrase phrases ih =>
      obtain ⟨rest, derived, rfl, seam, split⟩ := split.uncons
      obtain ⟨first, later⟩ := List.forall_mem_cons.mp fits
      rw [List.append_assoc] at spelled
      have ended : Precedence.of ((rest ++ back).headD .endOfInput) ≤ .lowest := by
        cases rest with
        | nil => exact ends
        | cons token rest => exact seam
      obtain ⟨others, rfl, tail⟩ := (run.first derived spelled ended).1 first
      obtain ⟨further, rfl, behind⟩ := ih tail split later rfl
      exact ⟨further, rfl, behind⟩

theorem eq_map_ofPhrase {phrases : List Phrase} (run : Turns parser turns final)
    (split : Splits phrases parser.tokens)
    (fits : ∀ phrase ∈ phrases, phrase.FitsWithin parser.depth) :
    turns = phrases.map Turn.ofPhrase := by
  obtain ⟨further, rfl, behind⟩ :=
    run.exists_further split fits (List.append_nil _).symm (Nat.le_refl _)
  rw [behind.eq_nil rfl, List.append_nil]

theorem tooDeep {phrases : List Phrase} (run : Turns parser turns final)
    (split : Splits phrases parser.tokens)
    (fails : ¬ ∀ phrase ∈ phrases, phrase.FitsWithin parser.depth) :
    ∃ errors, turns.filterMap Turn.error? = .tooDeep maxNesting :: errors := by
  induction phrases generalizing parser turns with
  | nil => exact absurd (by simp) fails
  | cons phrase phrases ih =>
      obtain ⟨rest, derived, spelled, ends, split⟩ := split.uncons
      by_cases first : phrase.FitsWithin parser.depth
      · obtain ⟨further, rfl, behind⟩ := (run.first derived spelled ends).1 first
        obtain ⟨errors, begun⟩ := ih behind split fun later =>
          fails (List.forall_mem_cons.mpr ⟨first, later⟩)
        exact ⟨errors, by simpa [Turn.ofPhrase, List.filterMap_cons] using begun⟩
      · obtain ⟨segment, further, rfl⟩ := (run.first derived spelled ends).2 first
        exact ⟨further.filterMap Turn.error?, by simp⟩

/-- Turns that all succeed read sums that split the tokens. -/
theorem exists_splits (run : Turns parser turns final) (ended : final.tokens = [])
    (noErrors : turns.filterMap Turn.error? = []) :
    ∃ phrases, Splits phrases parser.tokens ∧
      (∀ phrase ∈ phrases, phrase.FitsWithin parser.depth) ∧
      turns = phrases.map Turn.ofPhrase := by
  induction run with
  | done => exact ⟨[], ended ▸ .nil, by simp, rfl⟩
  | failure => simp at noErrors
  | statement current ran cut run ih =>
      obtain ⟨phrase, rest, derived, spelled, ends, first, rfl, rfl⟩ :=
        parseExpression_eq_ok_iff.mp ran
      obtain ⟨phrases, split, later, rfl⟩ :=
        ih ended (by simpa [List.filterMap_cons] using noErrors)
      have same : _ = phrase.tokens := List.append_cancel_right (cut.symm.trans spelled)
      refine ⟨phrase :: phrases, spelled ▸ .cons derived ends split,
        List.forall_mem_cons.mpr ⟨first, later⟩, ?_⟩
      rw [List.map_cons, Turn.ofPhrase, same]

end Turns

/-!
## Texts
-/

theorem exists_turns_parse (source : String) :
    ∃ turns final, Turns (Parser.ofSource source) turns final ∧ final.tokens = [] ∧
      parse source =
        if turns.filterMap Turn.error? = [] then
          .ok { statements := turns.filterMap Turn.statement? }
        else
          .error (turns.filterMap Turn.error?) := by
  have inside : .endOfInput ∉ (Parser.ofSource source).tokens :=
    endOfInput_not_mem_tokenize source
  obtain ⟨turns, reads⟩ := program_readsInTurns inside
  have statements : _ = turns.filterMap Turn.statement? := reads.statements
  have errors : _ = turns.filterMap Turn.error? := reads.errors
  refine ⟨turns, _, reads.run, reads.tokens, ?_⟩
  rw [← statements, ← errors, parse]
  simp only [Array.isEmpty_iff, Array.toList_eq_nil_iff]

/-- All that is recorded while a text is read. -/
def diagnostics (source : String) : List ParseError :=
  (Parser.ofSource source).program.2.errors.toList

theorem exists_turns_diagnostics (source : String) :
    ∃ turns final, Turns (Parser.ofSource source) turns final ∧
      turns.flatMap Turn.segment = tokenize source ∧
      diagnostics source = turns.filterMap Turn.error? := by
  have inside : .endOfInput ∉ (Parser.ofSource source).tokens :=
    endOfInput_not_mem_tokenize source
  rcases program_readsInTurns inside with ⟨turns, reads⟩
  exact ⟨turns, _, reads.run, reads.segments, reads.errors⟩

theorem parse_of_diagnostics {source : String} (diagnosed : diagnostics source ≠ []) :
    parse source = .error (diagnostics source) := by
  have recorded : ¬ (Parser.ofSource source).program.2.errors.isEmpty = true := by
    intro clean
    exact diagnosed (Array.toList_eq_nil_iff.mpr (Array.isEmpty_iff.mp clean))
  simp only [parse, recorded, Bool.false_eq_true, ↓reduceIte]
  rfl

theorem diagnostics_of_parse {source : String} {errors : List ParseError}
    (refused : parse source = .error errors) : diagnostics source = errors ∧ errors ≠ [] := by
  by_cases clean : (Parser.ofSource source).program.2.errors.isEmpty = true
  · simp only [parse, clean, ↓reduceIte] at refused
    cases refused
  · simp only [parse, clean, Bool.false_eq_true, ↓reduceIte] at refused
    cases refused
    exact ⟨rfl, fun same => clean (Array.isEmpty_iff.mpr (Array.toList_eq_nil_iff.mp same))⟩

theorem filterMap_error?_ofPhrase (phrases : List Phrase) :
    (phrases.map Turn.ofPhrase).filterMap Turn.error? = [] := by
  simp [List.filterMap_map, Function.comp_def, Turn.ofPhrase]

theorem filterMap_statement?_ofPhrase (phrases : List Phrase) :
    (phrases.map Turn.ofPhrase).filterMap Turn.statement? = phrases.map Phrase.tree := by
  simp [List.filterMap_map, Function.comp_def, Turn.ofPhrase]

section Splitting

variable {source : String} {phrases : List Phrase} (split : Splits phrases (tokenize source))
include split

theorem parse_of_splits (fits : ∀ phrase ∈ phrases, phrase.FitsWithin 0) :
    parse source = .ok { statements := phrases.map Phrase.tree } := by
  obtain ⟨turns, final, run, -, parsed⟩ := exists_turns_parse source
  rw [parsed, run.eq_map_ofPhrase split fits, if_pos (filterMap_error?_ofPhrase phrases),
    filterMap_statement?_ofPhrase]

theorem parse_tooDeep_of_splits (fails : ¬ ∀ phrase ∈ phrases, phrase.FitsWithin 0) :
    ∃ errors, parse source = .error (.tooDeep maxNesting :: errors) := by
  obtain ⟨turns, final, run, -, parsed⟩ := exists_turns_parse source
  obtain ⟨errors, begun⟩ := run.tooDeep split fails
  exact ⟨errors, by rw [parsed, begun, if_neg (List.cons_ne_nil _ _)]⟩

/-- No other split cuts the tokens differently or has other trees. -/
theorem splits_unique (fits : ∀ phrase ∈ phrases, phrase.FitsWithin 0) {others : List Phrase}
    (otherSplit : Splits others (tokenize source)) :
    others.map Phrase.tokens = phrases.map Phrase.tokens ∧
      others.map Phrase.tree = phrases.map Phrase.tree := by
  obtain ⟨turns, final, run, -, -⟩ := exists_turns_parse source
  have same := run.eq_map_ofPhrase split fits
  by_cases otherFits : ∀ phrase ∈ others, phrase.FitsWithin 0
  · have equal := (run.eq_map_ofPhrase otherSplit otherFits).symm.trans same
    have segments := congrArg (List.map Turn.segment) equal
    have statements := congrArg (List.filterMap Turn.statement?) equal
    rw [List.map_map, List.map_map] at segments
    rw [filterMap_statement?_ofPhrase, filterMap_statement?_ofPhrase] at statements
    exact ⟨segments, statements⟩
  · obtain ⟨errors, begun⟩ := run.tooDeep otherSplit otherFits
    rw [same, filterMap_error?_ofPhrase] at begun
    cases begun

end Splitting

theorem exists_splits_of_parse {source : String} {program : Program}
    (success : parse source = .ok program) :
    ∃ phrases, Splits phrases (tokenize source) ∧ (∀ phrase ∈ phrases, phrase.FitsWithin 0) ∧
      program.statements = phrases.map Phrase.tree := by
  obtain ⟨turns, final, run, ended, parsed⟩ := exists_turns_parse source
  by_cases noErrors : turns.filterMap Turn.error? = []
  · obtain ⟨phrases, split, fits, rfl⟩ := run.exists_splits ended noErrors
    rw [parsed, if_pos noErrors, filterMap_statement?_ofPhrase] at success
    cases success
    exact ⟨phrases, split, fits, rfl⟩
  · rw [parsed, if_neg noErrors] at success
    cases success

/-- A text is a program exactly if its tokens split into sums that all fit. The statements are the
trees of these sums, and no other split cuts the tokens differently or has other trees. Where some
sum of a split does not fit, the first diagnostic of the text is the limit. -/
theorem parse_agrees_with_grammar (source : String) :
    (∀ program, parse source = .ok program ↔
      ∃ phrases, Splits phrases (tokenize source) ∧ (∀ phrase ∈ phrases, phrase.FitsWithin 0) ∧
        program.statements = phrases.map Phrase.tree) ∧
    (∀ phrases others, Splits phrases (tokenize source) → Splits others (tokenize source) →
      (∀ phrase ∈ phrases, phrase.FitsWithin 0) →
      others.map Phrase.tokens = phrases.map Phrase.tokens ∧
        others.map Phrase.tree = phrases.map Phrase.tree) ∧
    ∀ phrases, Splits phrases (tokenize source) → ¬ (∀ phrase ∈ phrases, phrase.FitsWithin 0) →
      ∃ errors, parse source = .error (.tooDeep maxNesting :: errors) := by
  refine ⟨fun program => ⟨exists_splits_of_parse, ?_⟩, ?_, ?_⟩
  · rintro ⟨phrases, split, fits, statements⟩
    rw [parse_of_splits split fits, ← statements]
  · intro phrases others split otherSplit fits
    exact splits_unique split fits otherSplit
  · intro phrases split fails
    exact parse_tooDeep_of_splits split fails

end Calculator
