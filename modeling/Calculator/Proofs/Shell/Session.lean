import Mathlib.Data.List.Forall2
import Calculator.Proofs.Shell.Output
import Calculator.Proofs.Text.Utf8

/-!
# Line by line

A session answers every line of its input for itself. Nothing is carried from one line to the next,
so behind a line feed a session goes on as it would begin.
-/

set_option autoImplicit false

namespace Calculator.Shell

/-- The line is read as text, and the text without all carriage returns and line feeds at its end is
answered. -/
def LineAnswer (line : List UInt8) (answer : String) : Prop :=
  ∃ text content, Text.Reads line text ∧ Text.TrimmedRight isLineEnd text content ∧
    answer = response (String.ofList content)

theorem lineAnswer_lineResponse (line : List UInt8) : LineAnswer line (lineResponse line) :=
  ⟨_, _, Text.reads_decode line, Text.trimRight_trimmed isLineEnd _, rfl⟩

private theorem forall₂_lineAnswer (lines : List (List UInt8)) :
    List.Forall₂ LineAnswer lines (lines.map lineResponse) := by
  rw [List.forall₂_map_right_iff, List.forall₂_same]
  intro line _
  exact lineAnswer_lineResponse line

theorem runSession_run (bytes : List UInt8) :
    runSession { bytes } {} = .ok () { written := (sessionText bytes).toUTF8 } :=
  (runSession_writes bytes).truncates.unlimited

private theorem exists_transcript_append (front : List String) :
    ∃ shown, ∀ back, transcript (front ++ back) = shown ++ transcript back := by
  induction front with
  | nil => exact ⟨"", fun back => String.empty_append.symm⟩
  | cons answer front ih =>
      rcases ih with ⟨shown, goesOn⟩
      refine ⟨prompt ++ (answer ++ shown), fun back => ?_⟩
      rw [List.cons_append, transcript, goesOn, String.append_assoc, String.append_assoc]

private theorem lines_append {front : List UInt8} (ended : ∀ final ∈ front.getLast?, final = 10)
    (back : List UInt8) :
    Text.lines (· == 10) (front ++ back) =
      Text.lines (· == 10) front ++ Text.lines (· == 10) back := by
  have both := (Text.lineCut_lines (· == 10) front).append (Text.lineCut_lines (· == 10) back)
    fun final last => beq_iff_eq.mpr (ended final last)
  exact both.eq_lines.symm

/-- A session shows a prompt and an answer for every line, and a last prompt. In front of further
input it shows what it shows without it, except for the last prompt. -/
theorem session_goes_line_by_line :
    (∀ bytes, ∃ lines answers, Text.LineCut (· == 10) bytes lines ∧
      List.Forall₂ LineAnswer lines answers ∧
      runSession { bytes } {} = .ok () { written := (transcript answers).toUTF8 }) ∧
    ∀ front back, (∀ final ∈ front.getLast?, final = 10) → ∃ shown further : String,
      runSession { bytes := front } {} = .ok () { written := (shown ++ prompt).toUTF8 } ∧
      runSession { bytes := back } {} = .ok () { written := further.toUTF8 } ∧
      runSession { bytes := front ++ back } {} =
        .ok () { written := (shown ++ further).toUTF8 } := by
  constructor
  · intro bytes
    exact ⟨_, _, Text.lineCut_lines (· == 10) bytes, forall₂_lineAnswer _, runSession_run bytes⟩
  · intro front back ended
    rcases exists_transcript_append ((Text.lines (· == 10) front).map lineResponse) with
      ⟨shown, goesOn⟩
    refine ⟨shown, sessionText back, ?_, runSession_run back, ?_⟩
    · have alone := goesOn []
      rw [List.append_nil] at alone
      rw [runSession_run, sessionText, alone, transcript]
    · rw [runSession_run, sessionText, lines_append ended, List.map_append, goesOn, sessionText]

/-- The first line, `(1`, is refused. The session goes on all the same. -/
theorem session_goes_on_behind_refused_line :
    (∀ final ∈ ([40, 49, 10] : List UInt8).getLast?, final = 10) ∧ ∃ shown further : String,
      runSession { bytes := [40, 49, 10] } {} =
        .ok () { written := (shown ++ prompt).toUTF8 } ∧
      runSession { bytes := [50] } {} = .ok () { written := further.toUTF8 } ∧
      runSession { bytes := [40, 49, 10] ++ [50] } {} =
        .ok () { written := (shown ++ further).toUTF8 } := by
  have ended : ∀ final ∈ ([40, 49, 10] : List UInt8).getLast?, final = 10 := by simp
  exact ⟨ended, session_goes_line_by_line.2 [40, 49, 10] [50] ended⟩

end Calculator.Shell
