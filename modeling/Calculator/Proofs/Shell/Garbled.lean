import Calculator.Proofs.Parser.IllegalTokens
import Calculator.Proofs.Shell.Script
import Calculator.Proofs.Text.Segments

/-!
# Bytes that are no text

A session reads bytes that need not be UTF-8. What is replaced in a line is a token of its own there,
which no other token takes in, and the other lines are read as they would be without it.
-/

set_option autoImplicit false

namespace Calculator

/-!
## Illegal tokens of one character
-/

section Foreign

variable {c : Char} (foreign : Foreign c)
include foreign

private theorem Begins.count_lexeme {text lexeme : List Char} {token : Token}
    (begins : Begins text lexeme token) :
    token.illegalText?.toList.count (String.ofList [c]) = lexeme.count c := by
  cases begins with
  | longest _ _ _ stands =>
      have legal : token.illegalText? = none := by
        cases stands with
        | number | name => rfl
        | symbol listed =>
            have fixed : ∀ entry ∈ symbols, entry.2.illegalText? = none := by decide
            exact fixed _ listed
      rw [legal, List.count_eq_zero.mpr (foreign.outside lexeme token stands)]
      rfl
  | @illegal other =>
      rw [Token.illegalText?, Option.toList_some, List.count_singleton, List.count_singleton]
      simp

/-- A foreign character makes as many illegal tokens as it stands in the text. -/
theorem count_illegal (text : List Char) :
    ((Token.stream text).filterMap Token.illegalText?).count (String.ofList [c]) =
      text.count c := by
  have absent {blanks : List Char} (blank : ∀ d ∈ blanks, isBlank d = true) :
      blanks.count c = 0 := by
    refine List.count_eq_zero.mpr fun member => ?_
    cases (blank c member).symm.trans foreign.visible
  obtain ⟨pieces, trailing, cuts⟩ := exists_cuts text
  rw [cuts.stream_eq]
  induction pieces generalizing text with
  | nil =>
      rw [absent (Cuts.nil_iff.mp cuts).2]
      rfl
  | cons piece pieces ih =>
      obtain ⟨rest, rfl, blank, begins, further⟩ := cuts.uncons
      have first := begins.count_lexeme foreign
      rw [List.map_cons, List.count_append, List.count_append, absent blank, Nat.zero_add, ← first,
        ← ih rest further]
      cases legal : piece.token.illegalText? with
      | none => simp [List.filterMap_cons_none legal]
      | some quoted => simp [List.filterMap_cons_some legal, List.count_cons, Nat.add_comm]

end Foreign

namespace Shell

private theorem foreign_replacement : Foreign Text.replacement where
  visible := rfl
  outside lexeme token stands member := by
    rcases Token.mem_lexeme_cases stands member with part | listed
    · cases part
    · have absent : ∀ entry ∈ symbols, Text.replacement ∉ entry.1 := by decide
      exact absent _ listed member

/-!
## Lines with replaced bytes
-/

/-- The line is read in its segments, and the text without all carriage returns and line feeds at its
end is answered. In this text, what is replaced is an illegal token between the tokens of what stands
on either side of it, and no other illegal token reads like one. -/
def SegmentAnswer (line : List UInt8) (answer : String) : Prop :=
  ∃ segments content, Text.Segmented line segments ∧
    (∀ others, Text.Segmented line others → others = segments) ∧
    Text.TrimmedRight isLineEnd (segments.map Text.Segment.char) content ∧
    answer = response (String.ofList content) ∧
    (∀ before bytes behind, segments = before ++ .broken bytes :: behind →
      tokenize (String.ofList content) =
        tokenize (String.ofList (before.map Text.Segment.char)) ++
          .illegal (String.ofList [Text.replacement]) ::
            tokenize (String.ofList (behind.map Text.Segment.char))) ∧
    ((tokenize (String.ofList content)).filterMap Token.illegalText?).count
        (String.ofList [Text.replacement]) =
      (segments.map Text.Segment.char).count Text.replacement

private theorem segmentAnswer_lineResponse (line : List UInt8) :
    SegmentAnswer line (lineResponse line) := by
  obtain ⟨segments, segmented, same⟩ := Text.exists_segmented line
  have tokens := (trimRight_isContent (segments.map Text.Segment.char)).tokenize_eq
  refine ⟨segments, _, segmented, fun others also => also.unique segmented,
    Text.trimRight_trimmed isLineEnd _, by rw [lineResponse, same], ?_, ?_⟩
  · rintro before bytes behind rfl
    rw [tokens, List.map_append, List.map_cons]
    simp only [tokenize_eq_stream, String.toList_ofList]
    exact foreign_replacement.stream_append _ _
  · rw [tokens, tokenize_eq_stream, String.toList_ofList, count_illegal foreign_replacement]

/-- The lines of bytes are read one by one as all bytes are together, and text is read exactly from its
bytes. So whatever a line is, those in front of it and behind it are read as they would be without it.
In the lines that a session answers, each longest sequence of bytes that is no text is one replaced
character, and this is one illegal token. -/
theorem garbled_bytes_stay_in_line :
    (∀ bytes, ((Text.lines (· == 10) bytes).map Text.decode).flatten = Text.decode bytes) ∧
    (∀ text : String, Text.decode text.toUTF8.data.toList = text.toList) ∧
    (∀ front line back, Text.Ended front → Text.Ended line →
      Text.decode (front ++ line ++ back) =
        Text.decode front ++ Text.decode line ++ Text.decode back) ∧
    ∀ bytes, ∃ answers, List.Forall₂ SegmentAnswer (Text.lines (· == 10) bytes) answers ∧
      runSession { bytes } {} = .ok () { written := (transcript answers).toUTF8 } := by
  refine ⟨Text.decode_lines, Text.decode_toUTF8, ?_, ?_⟩
  · intro front line back ended lineEnded
    rw [List.append_assoc, Text.decode_append ended, Text.decode_append lineEnded,
      List.append_assoc]
  · intro bytes
    refine ⟨(Text.lines (· == 10) bytes).map lineResponse, ?_, runSession_run bytes⟩
    rw [List.forall₂_map_right_iff, List.forall₂_same]
    intro line _
    exact segmentAnswer_lineResponse line

/-- The first two bytes could begin a character, and the next three would be a surrogate. -/
theorem garbled_bytes_stay_in_line_surrogate :
    Text.Ended [0xF0, 0x9F, 10] ∧ Text.Ended [0xED, 0xA0, 0x80, 10] ∧
      Text.decode ([0xF0, 0x9F, 10] ++ [0xED, 0xA0, 0x80, 10] ++ [49]) =
        Text.decode [0xF0, 0x9F, 10] ++ Text.decode [0xED, 0xA0, 0x80, 10] ++
          Text.decode [49] := by
  have front : Text.Ended [0xF0, 0x9F, 10] := by simp [Text.Ended]
  have line : Text.Ended [0xED, 0xA0, 0x80, 10] := by simp [Text.Ended]
  exact ⟨front, line, garbled_bytes_stay_in_line.2.2.1 _ _ [49] front line⟩

end Shell

end Calculator
