import Calculator.Proofs.Text.Lines
import Calculator.Shell.Session

/-!
# What the shell writes

One text, a script and a session each write a text that their input determines, and then end. A
limit on the output cuts this text off and changes nothing else, and a failure to read shows only
behind it.
-/

set_option autoImplicit false

namespace Calculator.Shell

/-!
## Writing in sequence
-/

namespace Output

def accept (output : Output) (bytes : ByteArray) : Output :=
  { output with written := output.written ++ bytes }

/-- How many more bytes are accepted, if there is a limit. -/
def room? (output : Output) : Option Nat :=
  output.limit.map (· - output.written.size)

private theorem accept_accept (output : Output) (first second : ByteArray) :
    (output.accept first).accept second = output.accept (first ++ second) := by
  simp only [accept, ByteArray.append_assoc]

private theorem accept_empty (output : Output) : output.accept .empty = output := by
  simp only [accept, ByteArray.append_empty]

private theorem room?_accept (output : Output) (bytes : ByteArray) :
    (output.accept bytes).room? = output.room?.map (· - bytes.size) := by
  simp only [room?, accept, Option.map_map, ByteArray.size_append, Function.comp_def,
    Nat.sub_add_eq]

end Output

def conclude (ending : Option Failure) (output : Output) :
    EStateM.Result Failure Output Unit :=
  match ending with
  | none => .ok () output
  | some failure => .error failure output

/-- A run that writes this text and then ends in this way, unless a limit stops it before. -/
structure Writes (run : ShellM Unit) (text : String) (ending : Option Failure) : Prop where
  complete : ∀ output : Output, (∀ room ∈ output.room?, text.toUTF8.size ≤ room) →
    run output = conclude ending (output.accept text.toUTF8)
  stopped : ∀ output : Output, ∀ room ∈ output.room?, room < text.toUTF8.size →
    run output = .error .writeLimitReached (output.accept (text.toUTF8.extract 0 room))

theorem writes_pure : Writes (pure ()) "" none where
  complete output _ := congrArg (conclude none) output.accept_empty.symm
  stopped _ room _ short := absurd short (Nat.not_lt_zero room)

theorem writes_throw (failure : Failure) : Writes (throw failure) "" (some failure) where
  complete output _ := congrArg (conclude (some failure)) output.accept_empty.symm
  stopped _ room _ short := absurd short (Nat.not_lt_zero room)

theorem writes_write (text : String) : Writes (write text) text none where
  complete output fits := by
    rcases output with ⟨written, _ | limit⟩
    · rfl
    · exact if_pos (fits (limit - written.size) rfl)
  stopped output room limited short := by
    rcases output with ⟨written, _ | limit⟩
    · cases limited
    · cases limited
      exact if_neg (Nat.not_le.mpr short)

private theorem extract_of_size_le {bytes : ByteArray} {limit : Nat} (fits : bytes.size ≤ limit) :
    bytes.extract 0 limit = bytes := by
  rw [← Nat.max_eq_left fits, ByteArray.extract_zero_max_size]

section Sequence

variable {first second : ShellM Unit} {text more : String} {ending : Option Failure}

private theorem sequence_of_ok {output next : Output} (fine : first output = .ok () next) :
    (do first; second) output = second next := by
  show EStateM.bind first (fun _ => second) output = second next
  rw [EStateM.bind, fine]

private theorem sequence_of_error {failure : Failure} {output final : Output}
    (fails : first output = .error failure final) :
    (do first; second) output = .error failure final := by
  show EStateM.bind first (fun _ => second) output = .error failure final
  rw [EStateM.bind, fails]

/-- The texts of two runs stand one behind the other. -/
theorem Writes.sequence (front : Writes first text none) (back : Writes second more ending) :
    Writes (do first; second) (text ++ more) ending := by
  have whole : (text ++ more).toUTF8 = text.toUTF8 ++ more.toUTF8 := String.toByteArray_append
  constructor
  case complete =>
    intro output fits
    rw [whole, ByteArray.size_append] at fits
    have fitsFirst : ∀ room ∈ output.room?, text.toUTF8.size ≤ room := by
      intro room limited
      exact Nat.le_of_add_right_le (fits room limited)
    have fitsSecond : ∀ room ∈ (output.accept text.toUTF8).room?, more.toUTF8.size ≤ room := by
      intro room limited
      rw [Output.room?_accept] at limited
      rcases Option.map_eq_some_iff.mp limited with ⟨before, given, same⟩
      rw [← same]
      exact Nat.le_sub_of_add_le' (fits before given)
    rw [sequence_of_ok (front.complete output fitsFirst), back.complete _ fitsSecond,
      output.accept_accept, whole]
  case stopped =>
    intro output room limited short
    rw [whole, ByteArray.size_append] at short
    rw [whole, ByteArray.extract_append, Nat.zero_sub]
    by_cases enough : text.toUTF8.size ≤ room
    · have fitsFirst : ∀ other ∈ output.room?, text.toUTF8.size ≤ other := by
        intro other also
        cases limited.symm.trans also
        exact enough
      have left : room - text.toUTF8.size ∈ (output.accept text.toUTF8).room? := by
        rw [Output.room?_accept, limited]
        rfl
      rw [sequence_of_ok (front.complete output fitsFirst),
        back.stopped _ _ left (Nat.sub_lt_left_of_lt_add enough short), output.accept_accept,
        extract_of_size_le enough]
    · have stops : room < text.toUTF8.size := Nat.not_le.mp enough
      rw [sequence_of_error (front.stopped output room limited stops),
        Nat.sub_eq_zero_of_le (Nat.le_of_lt stops), ByteArray.extract_same,
        ByteArray.append_empty]

end Sequence

/-!
## What is written
-/

theorem runOnce_writes (source : String) : Writes (runOnce source) (response source) none :=
  writes_write _

private theorem forM_runOnce_writes (sources : List String) :
    Writes (sources.forM runOnce) (String.join (sources.map response)) none := by
  induction sources with
  | nil => exact writes_pure
  | cons source sources ih =>
      rw [List.map_cons, String.join_cons]
      exact (runOnce_writes source).sequence ih

theorem runScript_writes (script : String) :
    Writes (runScript script) (String.join ((scriptSources script).map response)) none :=
  forM_runOnce_writes _

/-- What a session shows: a prompt in front of every answer, and one behind the last. -/
def transcript : List String → String
  | [] => prompt
  | answer :: answers => prompt ++ (answer ++ transcript answers)

theorem converse_writes (lines : List (List UInt8)) :
    Writes (converse lines) (transcript (lines.map lineResponse)) none := by
  induction lines with
  | nil => exact writes_write _
  | cons line lines ih => exact (writes_write _).sequence ((writes_write _).sequence ih)

def sessionText (bytes : List UInt8) : String :=
  transcript ((Text.lines (· == 10) bytes).map lineResponse)

theorem runSession_writes (bytes : List UInt8) :
    Writes (runSession { bytes }) (sessionText bytes) none := by
  rw [← String.append_empty (s := sessionText bytes)]
  exact (converse_writes _).sequence writes_pure

/-- What stands behind the last line feed is not answered when reading fails. -/
theorem runSession_broken_writes (bytes : List UInt8) :
    Writes (runSession { bytes, broken := true })
      (sessionText (Text.trimRight (· != 10) bytes)) (some .readFailed) := by
  have ended : Input.lines { bytes, broken := true } =
      Text.lines (· == 10) (Text.trimRight (· != 10) bytes) := Text.filter_ended_lines 10 bytes
  rw [← String.append_empty (s := sessionText _), sessionText, ← ended]
  exact (converse_writes _).sequence (writes_throw .readFailed)

/-!
## Failures
-/

/-- A run that writes this text and then ends in this way. An output that accepts fewer bytes gets
the first ones, and then fails. -/
structure Truncates (run : ShellM Unit) (text : String) (ending : Option Failure) : Prop where
  unlimited : run {} = conclude ending { written := text.toUTF8 }
  limited : ∀ limit, run { limit := some limit } =
    conclude (if text.toUTF8.size ≤ limit then ending else some .writeLimitReached)
      { written := text.toUTF8.extract 0 limit, limit := some limit }

theorem Writes.truncates {run : ShellM Unit} {text : String} {ending : Option Failure}
    (writes : Writes run text ending) : Truncates run text ending := by
  constructor
  case unlimited =>
    rw [writes.complete {} nofun, Output.accept, ByteArray.empty_append]
  case limited =>
    intro limit
    have room : limit ∈ ({ limit := some limit } : Output).room? := rfl
    by_cases fits : text.toUTF8.size ≤ limit
    · have enough : ∀ other ∈ ({ limit := some limit } : Output).room?,
          text.toUTF8.size ≤ other := by
        intro other also
        cases room.symm.trans also
        exact fits
      rw [writes.complete _ enough, if_pos fits, extract_of_size_le fits, Output.accept,
        ByteArray.empty_append]
    · rw [writes.stopped _ limit room (Nat.not_le.mp fits), if_neg fits, Output.accept,
        ByteArray.empty_append]
      rfl

/-- A limit on the output cuts off what a run writes and changes nothing else. A failure to read
takes the line that it cuts off from the session, and ends the session behind all others. -/
theorem failures_only_truncate :
    (∀ source, Truncates (runOnce source) (response source) none) ∧
    (∀ script,
      Truncates (runScript script) (String.join ((scriptSources script).map response)) none) ∧
    (∀ bytes, Truncates (runSession { bytes }) (sessionText bytes) none) ∧
    ∀ bytes, ∃ whole unfinished, bytes = whole ++ unfinished ∧
      (∀ final ∈ whole.getLast?, final = 10) ∧ 10 ∉ unfinished ∧
      Truncates (runSession { bytes, broken := true }) (sessionText whole) (some .readFailed) := by
  refine ⟨fun source => (runOnce_writes source).truncates,
    fun script => (runScript_writes script).truncates,
    fun bytes => (runSession_writes bytes).truncates, ?_⟩
  intro bytes
  rcases Text.trimRight_trimmed (· != 10) bytes with ⟨⟨unfinished, parts, others⟩, stops⟩
  refine ⟨Text.trimRight (· != 10) bytes, unfinished, parts, ?_, ?_,
    (runSession_broken_writes bytes).truncates⟩
  · intro final last
    simpa using stops final last
  · intro member
    simpa using others 10 member

end Calculator.Shell
