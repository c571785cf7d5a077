import Calculator.Proofs.Shell.Framing
import Calculator.Proofs.Shell.Response
import Calculator.Proofs.Shell.Session

/-!
# Scripts and sessions

A script is answered line by line as a session would answer it, without the lines that are blank.
The two take different ends off a line, but no end of a line makes a token, and none makes a line
anything but blank.
-/

set_option autoImplicit false

namespace Calculator

namespace Text

theorem isWhiteSpace_of_isBlank {c : Char} (blank : isBlank c = true) :
    isWhiteSpace c = true := by
  simp only [isBlank, Bool.or_eq_true, beq_iff_eq] at blank
  rcases blank with (((rfl | rfl) | rfl) | rfl) | rfl <;> decide

private theorem not_lineFeed_of_mem_encode {text : List Char}
    (inside : ∀ c ∈ text, (c == '\n') = false) : ∀ byte ∈ encode text, (byte == 10) = false := by
  intro byte member
  rcases List.mem_flatMap.mp member with ⟨c, among, part⟩
  rw [beq_eq_false_iff_ne]
  intro same
  have code : c.toNat = '\n'.toNat := by
    rw [toNat_eq_of_mem_utf8EncodeChar part (by rw [same]; decide), same]
    rfl
  have other := inside c among
  rw [Char.toNat_inj.mp code] at other
  cases other

/-- The lines of a text are written as the lines of its bytes. -/
theorem LineCut.encode {text : List Char} {cut : List (List Char)}
    (isCut : LineCut (· == '\n') text cut) :
    LineCut (· == 10) (Text.encode text) (cut.map Text.encode) := by
  induction isCut with
  | nil => exact .nil
  | @unfinished line nonempty inside =>
      refine .unfinished ?_ (not_lineFeed_of_mem_encode inside)
      intro empty
      have same := decode_encode line
      rw [empty] at same
      exact nonempty same.symm
  | @finished content final rest cut inside ends _ ih =>
      rw [beq_iff_eq.mp ends, List.map_cons]
      simp only [Text.encode, List.flatMap_append, List.flatMap_cons, List.flatMap_nil]
      exact .finished (not_lineFeed_of_mem_encode inside) rfl ih

end Text

namespace Shell

/-!
## Ends of lines
-/

/-- A line with some of its end taken off. -/
def IsContent (content line : List Char) : Prop :=
  ∃ ends, line = content ++ ends ∧ ∀ c ∈ ends, isLineEnd c = true

section Content

variable {content line : List Char} (isContent : IsContent content line)
include isContent

theorem IsContent.tokenize_eq :
    tokenize (String.ofList content) = tokenize (String.ofList line) := by
  rcases isContent with ⟨ends, rfl, lineEnds⟩
  cases ends with
  | nil => rw [List.append_nil]
  | cons c ends =>
      rcases List.forall_mem_cons.mp lineEnds with ⟨first, further⟩
      have blank : Token.stream ends = [] :=
        stream_eq_nil_iff.mpr fun c member => isBlank_of_isLineEnd (further c member)
      rw [tokenize_eq_stream, tokenize_eq_stream, String.toList_ofList, String.toList_ofList,
        stream_append (isBlank_of_isLineEnd first), blank, List.append_nil]

theorem IsContent.response_eq :
    response (String.ofList content) = response (String.ofList line) :=
  response_congr isContent.tokenize_eq

private theorem IsContent.isBlankLine_eq : Text.isBlankLine content = Text.isBlankLine line := by
  rcases isContent with ⟨ends, rfl, lineEnds⟩
  have blank : ends.all Text.isWhiteSpace = true :=
    List.all_eq_true.mpr fun c member =>
      Text.isWhiteSpace_of_isBlank (isBlank_of_isLineEnd (lineEnds c member))
  rw [Text.isBlankLine, Text.isBlankLine, List.all_append, blank, Bool.and_true]

end Content

private theorem lineContent_isContent (line : List Char) : IsContent (lineContent line) line := by
  unfold lineContent
  split
  next rest reversed =>
    refine ⟨['\r', '\n'], ?_, by simp [isLineEnd]⟩
    rw [← List.reverse_reverse line, reversed]
    simp
  next rest _ reversed =>
    refine ⟨['\n'], ?_, by simp [isLineEnd]⟩
    rw [← List.reverse_reverse line, reversed]
    simp
  next => exact ⟨[], (List.append_nil line).symm, List.forall_mem_nil _⟩

theorem trimRight_isContent (line : List Char) :
    IsContent (Text.trimRight isLineEnd line) line :=
  (Text.trimRight_trimmed isLineEnd line).dropped

theorem lineResponse_encode (line : List Char) :
    lineResponse (Text.encode line) = response (String.ofList line) := by
  rw [lineResponse, Text.decode_encode, (trimRight_isContent line).response_eq]

/-!
## Agreement
-/

/-- A line of a text, and what it is answered. -/
structure Exchange where
  line : List Char
  answer : String

def Exchange.ofLine (line : List Char) : Exchange :=
  { line, answer := response (String.ofList line) }

@[simp] theorem Exchange.line_ofLine (line : List Char) : (ofLine line).line = line := rfl

@[simp] theorem Exchange.answer_ofLine (line : List Char) :
    (ofLine line).answer = response (String.ofList line) := by
  rw [ofLine]

/-- Whether a line contains more than white space. -/
def Exchange.isVisible (exchange : Exchange) : Bool :=
  exchange.line.any fun c => !Text.isWhiteSpace c

private theorem tokenize_ne_nil_of_visible {line : List Char}
    (visible : line.any (fun c => !Text.isWhiteSpace c) = true) :
    tokenize (String.ofList line) ≠ [] := by
  intro blank
  rw [tokenize_eq_stream, String.toList_ofList, stream_eq_nil_iff] at blank
  rcases List.any_eq_true.mp visible with ⟨c, member, visible⟩
  rw [Text.isWhiteSpace_of_isBlank (blank c member)] at visible
  cases visible

theorem scriptSources_responses (script : String) :
    (scriptSources script).map response =
      (((Text.lines (· == '\n') script.toList).map Exchange.ofLine).filter
        Exchange.isVisible).map Exchange.answer := by
  rw [scriptSources, List.map_map, List.filter_map, List.filter_map, List.map_map, List.map_map]
  have kept : ((fun line => !Text.isBlankLine line) ∘ lineContent) =
      Exchange.isVisible ∘ Exchange.ofLine := by
    funext line
    simp only [Function.comp_apply, Exchange.isVisible, Exchange.line_ofLine]
    rw [(lineContent_isContent line).isBlankLine_eq, Text.isBlankLine, List.not_all_eq_any_not]
  have answered : (response ∘ String.ofList) ∘ lineContent = Exchange.answer ∘ Exchange.ofLine := by
    funext line
    simp only [Function.comp_apply, (lineContent_isContent line).response_eq,
      Exchange.answer_ofLine]
  rw [kept, answered]

private theorem sessionText_encode (text : List Char) :
    sessionText (Text.encode text) =
      transcript (((Text.lines (· == '\n') text).map Exchange.ofLine).map Exchange.answer) := by
  have isCut := (Text.lineCut_lines (· == '\n') text).encode
  have answered : lineResponse ∘ Text.encode = Exchange.answer ∘ Exchange.ofLine := by
    funext line
    simp only [Function.comp_apply, lineResponse_encode, Exchange.answer_ofLine]
  rw [sessionText, ← isCut.eq_lines, List.map_map, List.map_map, answered]

/-- A script is answered what a session answers to the lines of its bytes, except for those that are
nothing but white space. Every other line has a token, so its answer is not `nil`. -/
theorem script_agrees_with_session (script : String) :
    ∃ exchanges : List Exchange,
      Text.LineCut (· == 10) script.toUTF8.data.toList
        (exchanges.map fun exchange => Text.encode exchange.line) ∧
      (∀ exchange ∈ exchanges, LineAnswer (Text.encode exchange.line) exchange.answer) ∧
      runSession { bytes := script.toUTF8.data.toList } {} =
        .ok () { written := (transcript (exchanges.map Exchange.answer)).toUTF8 } ∧
      runScript script {} = .ok () { written := (String.join
        ((exchanges.filter Exchange.isVisible).map Exchange.answer)).toUTF8 } ∧
      ∀ exchange ∈ exchanges, exchange.isVisible = true →
        tokenize (String.ofList exchange.line) ≠ [] ∧ exchange.answer ≠ "nil\n" := by
  refine ⟨(Text.lines (· == '\n') script.toList).map Exchange.ofLine, ?_, ?_, ?_, ?_, ?_⟩
  · rw [List.map_map, Text.toUTF8_eq_encode]
    exact (Text.lineCut_lines (· == '\n') script.toList).encode
  · intro exchange member
    rcases List.mem_map.mp member with ⟨line, _, rfl⟩
    rw [Exchange.line_ofLine, Exchange.answer_ofLine, ← lineResponse_encode]
    exact lineAnswer_lineResponse (Text.encode line)
  · rw [runSession_run, Text.toUTF8_eq_encode, sessionText_encode]
  · rw [← scriptSources_responses]
    exact (runScript_writes script).truncates.unlimited
  · intro exchange member visible
    rcases List.mem_map.mp member with ⟨line, _, rfl⟩
    have nonempty := tokenize_ne_nil_of_visible visible
    rw [Exchange.line_ofLine, Exchange.answer_ofLine, ne_eq, ne_eq, response_eq_nil_iff]
    exact ⟨nonempty, nonempty⟩

end Shell

end Calculator
