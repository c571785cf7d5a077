import Calculator.Proofs.Text.Lines
import Calculator.Proofs.Text.Utf8

/-!
# Reading line by line

Bytes are read in segments: each is a whole character, or bytes that are replaced as one. A byte below
`0x80` is a character wherever it stands, so no segment reaches over the end of a line, and the lines of
a sequence of bytes are read one by one as they are read together.
-/

set_option autoImplicit false

namespace Calculator.Text

/-!
## Bytes that are never replaced
-/

/-- A character with a byte below `0x80` is this byte. -/
theorem utf8EncodeChar_eq_singleton {c : Char} {byte : UInt8}
    (member : byte ∈ String.utf8EncodeChar c) (ascii : byte.toNat < 0x80) :
    String.utf8EncodeChar c = [byte] := by
  rw [← utf8EncodeChar_ofNat ascii, ← toNat_eq_of_mem_utf8EncodeChar member ascii,
    Char.ofNat_toNat]

namespace Broken

variable {bytes rest back : List UInt8}

private theorem not_ascii (broken : Broken bytes rest) {byte : UInt8} (member : byte ∈ bytes) :
    ¬ byte.toNat < 0x80 := by
  intro ascii
  rcases broken.begins with ⟨c, tail, spelled⟩ | single
  · have alone := utf8EncodeChar_eq_singleton (spelled ▸ List.mem_append_left tail member) ascii
    have positive := List.length_pos_iff.mpr broken.nonempty
    have length := congrArg List.length (spelled.symm.trans alone)
    simp only [List.length_append, List.length_singleton] at length
    have alone : tail = [] := List.length_eq_zero_iff.mp (by omega)
    rw [alone, List.append_nil] at spelled
    exact broken.noCharacter c (spelled ▸ List.prefix_append bytes rest)
  · obtain ⟨only, rfl⟩ := List.length_eq_one_iff.mp single
    cases List.mem_singleton.mp member
    exact broken.noCharacter _ ⟨rest, congrArg (· ++ rest) (utf8EncodeChar_ofNat ascii)⟩

/-- What stands behind an end of a line has no part in what is replaced in front of it. -/
theorem append (broken : Broken bytes rest) {final : UInt8} (ascii : final.toNat < 0x80)
    (ended : (bytes ++ rest).getLast? = some final) : Broken bytes (rest ++ back) := by
  obtain ⟨front, whole⟩ := List.getLast?_eq_some_iff.mp ended
  have further : rest ≠ [] := by
    rintro rfl
    rw [List.append_nil] at whole
    exact broken.not_ascii (whole ▸ List.mem_append_right front (List.mem_singleton_self final))
      ascii
  refine ⟨broken.nonempty, fun c front => ?_, broken.begins, fun next head => ?_⟩
  · rw [← List.append_assoc] at front
    by_cases short : (String.utf8EncodeChar c).length ≤ (bytes ++ rest).length
    · exact broken.noCharacter c
        (List.prefix_of_prefix_length_le front (List.prefix_append _ _) short)
    · have inside : bytes ++ rest <+: String.utf8EncodeChar c :=
        List.prefix_of_prefix_length_le (List.prefix_append _ _) front (by omega)
      have alone := utf8EncodeChar_eq_singleton
        (inside.subset (List.mem_of_getLast? ended)) ascii
      have positive := List.length_pos_iff.mpr broken.nonempty
      simp only [alone, List.length_singleton, List.length_append] at short
      omega
  · obtain ⟨first, others, rfl⟩ := List.exists_cons_of_ne_nil further
    exact broken.longest next head

end Broken

/-!
## Lines
-/

/-- Bytes that do not stop in the middle of a line. -/
def Ended (bytes : List UInt8) : Prop :=
  ∀ final ∈ bytes.getLast?, final = 10

private theorem Ended.of_append {front back : List UInt8} (ended : Ended (front ++ back)) :
    Ended back := by
  intro final last
  refine ended final ?_
  rw [List.getLast?_append, Option.mem_def.mp last]
  rfl

theorem Segmented.append {front back : List UInt8} {segments further : List Segment}
    (first : Segmented front segments) (second : Segmented back further) (ended : Ended front) :
    Segmented (front ++ back) (segments ++ further) := by
  induction first with
  | nil => exact second
  | character _ ih =>
      rw [List.append_assoc]
      exact .character (ih ended.of_append)
  | @broken bytes rest _ broken _ ih =>
      obtain ⟨final, last⟩ : ∃ final, (bytes ++ rest).getLast? = some final :=
        Option.ne_none_iff_exists'.mp (by simp [broken.nonempty])
      have ascii : final.toNat < 0x80 := by
        rw [ended final last]
        decide
      rw [List.append_assoc]
      exact .broken (broken.append ascii last) (ih ended.of_append)

/-- Behind the end of a line, bytes are read as if nothing stood in front. -/
theorem decode_append {front : List UInt8} (ended : Ended front) (back : List UInt8) :
    decode (front ++ back) = decode front ++ decode back := by
  obtain ⟨segments, first, same⟩ := exists_segmented front
  obtain ⟨further, second, also⟩ := exists_segmented back
  rw [← reads_iff, ← same, ← also, ← List.map_append]
  exact (first.append second ended).reads

theorem decode_lines (bytes : List UInt8) :
    ((lines (· == 10) bytes).map decode).flatten = decode bytes := by
  have isCut := lineCut_lines (· == 10) bytes
  generalize lines (· == 10) bytes = cut at isCut
  induction isCut with
  | nil => rfl
  | unfinished => simp
  | @finished content final rest cut _ ends _ ih =>
      have ended : Ended (content ++ [final]) := by
        intro last same
        rw [List.getLast?_concat] at same
        cases same
        exact beq_iff_eq.mp ends
      rw [List.map_cons, List.flatten_cons, ih, ← decode_append ended, List.append_assoc,
        List.singleton_append]

/-- Text is read back from its bytes. -/
theorem decode_toUTF8 (text : String) : decode text.toUTF8.data.toList = text.toList := by
  rw [toUTF8_eq_encode, decode_encode]

end Calculator.Text
