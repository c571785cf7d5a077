import Calculator.Proofs.Shell.Response
import Calculator.Proofs.Token.Munch

/-!
# Blanks between tokens

Blanks keep the tokens in front of them from those behind, whatever the texts on either side are. So
where a text is cut between two of its tokens anyway, further blanks change neither its tokens nor
anything that is made of them.
-/

set_option autoImplicit false

namespace Calculator

open Token (stream)

/-- A place in a text between two of its tokens, in front of the first or behind the last: pieces of
the text lie in front of it, and perhaps blanks behind the last of them. -/
def IsBoundary (front back : List Char) : Prop :=
  ∃ before behind trailing gap,
    Cuts (front ++ back) (before ++ behind) trailing ∧
      front = before.flatMap Piece.text ++ gap ∧ ∀ c ∈ gap, isBlank c = true

/-!
## Parts of a cut text
-/

section Parts

variable {text longer lexeme back gap trailing : List Char} {token : Token}
variable {before behind : List Piece}

/-- The rule finds the same lexeme in every beginning of the text that still holds it. -/
theorem Begins.of_isPrefix (begins : Begins longer lexeme token) (shorter : text <+: longer)
    (inside : lexeme <+: text) : Begins text lexeme token := by
  cases begins with
  | longest isLexeme _ most stands =>
      exact .longest isLexeme inside
        (fun other otherLexeme reaches => most other otherLexeme (reaches.trans shorter)) stands
  | illegal _ notBlank unmatched =>
      exact .illegal inside notBlank
        fun other otherLexeme reaches => unmatched other otherLexeme (reaches.trans shorter)

namespace Cuts

private theorem append_left (cuts : Cuts text (before ++ behind) trailing)
    (blank : ∀ c ∈ gap, isBlank c = true)
    (shorter : gap <+: behind.flatMap Piece.text ++ trailing) :
    Cuts (before.flatMap Piece.text ++ gap) before gap where
  whole := rfl
  between piece member := cuts.between piece (List.mem_append_left behind member)
  behind := blank
  munches first piece further shape := by
    have begins := cuts.munches first piece (further ++ behind) (by simp [shape])
    refine begins.of_isPrefix ?_ (List.prefix_append _ _)
    rw [List.flatMap_append, List.append_assoc]
    exact (List.prefix_append_right_inj _).mpr ((List.prefix_append_right_inj _).mpr shorter)

private theorem append_right (cuts : Cuts text (before ++ behind) trailing) :
    Cuts (behind.flatMap Piece.text ++ trailing) behind trailing where
  whole := rfl
  between piece member := cuts.between piece (List.mem_append_right before member)
  behind := cuts.behind
  munches first piece further shape :=
    cuts.munches (before ++ first) piece further (by rw [shape, List.append_assoc])

end Cuts

end Parts

/-!
## Boundaries
-/

theorem isBoundary_start (text : List Char) : IsBoundary [] text := by
  obtain ⟨pieces, trailing, cuts⟩ := exists_cuts text
  exact ⟨[], pieces, trailing, [], cuts, rfl, nofun⟩

theorem isBoundary_end (text : List Char) : IsBoundary text [] := by
  obtain ⟨pieces, trailing, cuts⟩ := exists_cuts text
  refine ⟨pieces, [], trailing, trailing, ?_, cuts.whole, cuts.behind⟩
  rwa [List.append_nil, List.append_nil]

/-- Behind its first token, a text has a boundary. -/
theorem isBoundary_of_lex {c : Char} {text front rest : List Char} {token : Token}
    (inside : isBlank c = false) (scanned : Token.lex (c :: text) = (token, rest))
    (shape : c :: text = front ++ rest) : IsBoundary front rest := by
  obtain ⟨lexeme, same, begins⟩ := exists_begins_of_lex inside scanned
  obtain ⟨pieces, trailing, cuts⟩ := exists_cuts rest
  rw [shape] at same begins
  have found : front = lexeme := List.append_cancel_right same
  subst found
  have first : Cuts ([] ++ (front ++ rest)) (⟨[], front, token⟩ :: pieces) trailing :=
    .cons nofun begins cuts
  exact ⟨[⟨[], front, token⟩], pieces, trailing, [], first, by simp [Piece.text], nofun⟩

namespace IsBoundary

variable {front back : List Char}

/-- The tokens of a text are those in front of a boundary and those behind it. -/
theorem stream_append (boundary : IsBoundary front back) :
    stream (front ++ back) = stream front ++ stream back := by
  obtain ⟨before, behind, trailing, gap, cuts, shape, blank⟩ := boundary
  have rest : gap ++ back = behind.flatMap Piece.text ++ trailing := by
    have whole := cuts.whole
    rw [shape, List.flatMap_append, List.append_assoc, List.append_assoc] at whole
    exact List.append_cancel_left whole
  have first := cuts.append_left blank (rest ▸ List.prefix_append gap back)
  have second := cuts.append_right
  rw [← rest] at second
  calc stream (front ++ back) = (before ++ behind).map Piece.token := cuts.stream_eq
    _ = before.map Piece.token ++ behind.map Piece.token := List.map_append
    _ = stream front ++ stream (gap ++ back) := by rw [shape, first.stream_eq, second.stream_eq]
    _ = stream front ++ stream back := by rw [stream_blanks blank]

end IsBoundary

/-!
## Further blanks
-/

/-- Blanks between two texts keep their tokens apart and add none. At a boundary of a text, its start
and its end included, they change neither its tokens nor its program, its value and its answer. -/
theorem blanks_only_separate {blanks : String} (nonempty : blanks ≠ "")
    (blank : ∀ c ∈ blanks.toList, isBlank c = true) :
    (∀ front back, tokenize (front ++ blanks ++ back) = tokenize front ++ tokenize back) ∧
    (∀ front back : String, IsBoundary front.toList back.toList →
      tokenize (front ++ blanks ++ back) = tokenize (front ++ back) ∧
      parse (front ++ blanks ++ back) = parse (front ++ back) ∧
      evaluate (front ++ blanks ++ back) = evaluate (front ++ back) ∧
      Shell.response (front ++ blanks ++ back) = Shell.response (front ++ back)) ∧
    ∀ source : String, IsBoundary [] source.toList ∧ IsBoundary source.toList [] := by
  refine ⟨tokenize_append nonempty blank, ?_, fun source => ⟨isBoundary_start _, isBoundary_end _⟩⟩
  intro front back boundary
  have same : tokenize (front ++ blanks ++ back) = tokenize (front ++ back) := by
    rw [tokenize_append nonempty blank, tokenize_eq_stream (front ++ back), String.toList_append,
      boundary.stream_append]
    rfl
  exact ⟨same, parse_congr same, evaluate_congr same, Shell.response_congr same⟩

/-- Between the number and the point of `1.e5`, blanks change nothing. -/
theorem blanks_only_separate_number_and_point :
    "\t\x0c" ≠ "" ∧ (∀ c ∈ "\t\x0c".toList, isBlank c = true) ∧
      IsBoundary "1".toList ".e5".toList ∧
      tokenize ("1" ++ "\t\x0c" ++ ".e5") = tokenize "1" ++ tokenize ".e5" ∧
      Shell.response ("1" ++ "\t\x0c" ++ ".e5") = Shell.response ("1" ++ ".e5") := by
  have nonempty : "\t\x0c" ≠ "" := by decide
  have blank : ∀ c ∈ "\t\x0c".toList, isBlank c = true := List.all_eq_true.mp rfl
  have scanned : Token.lex ('1' :: ".e5".toList) =
      (.number (Numeral.toFloat ⟨['1'], none, none⟩), ".e5".toList) := rfl
  have boundary : IsBoundary "1".toList ".e5".toList := isBoundary_of_lex rfl scanned rfl
  obtain ⟨apart, same, -⟩ := blanks_only_separate nonempty blank
  exact ⟨nonempty, blank, boundary, apart "1" ".e5", (same "1" ".e5" boundary).2.2.2⟩

end Calculator
