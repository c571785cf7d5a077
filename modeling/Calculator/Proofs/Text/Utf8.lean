import Calculator.Text.Utf8

/-!
# What bytes stand for

The rule for reading bytes that need not be UTF-8. A whole character is read as itself. Where none
stands, the longest sequence that begins one, or a single byte that begins none, is replaced. Every
sequence of bytes can be read by this rule in exactly one way, which is the one that the decoder
finds, and text is read back from its bytes.
-/

set_option autoImplicit false

namespace Calculator.Text

/-!
## The rule
-/

def BeginsCharacter (bytes : List UInt8) : Prop :=
  ∃ c rest, String.utf8EncodeChar c = bytes ++ rest

/-- Bytes in front of others that are replaced as one. No character stands there, and they go as far
as the beginning of one does. -/
structure Broken (bytes rest : List UInt8) : Prop where
  nonempty : bytes ≠ []
  noCharacter : ∀ c, ¬ String.utf8EncodeChar c <+: bytes ++ rest
  begins : BeginsCharacter bytes ∨ bytes.length = 1
  longest : ∀ next ∈ rest.head?, ¬ BeginsCharacter (bytes ++ [next])

inductive Reads : List UInt8 → List Char → Prop where
  | nil : Reads [] []
  | character {c rest text} : Reads rest text → Reads (String.utf8EncodeChar c ++ rest) (c :: text)
  | broken {bytes rest text} :
      Broken bytes rest → Reads rest text → Reads (bytes ++ rest) (replacement :: text)

/-- A whole character, or bytes that are replaced as one. -/
inductive Segment where
  | character (c : Char)
  | broken (bytes : List UInt8)

/-- What a segment is read as. -/
def Segment.char : Segment → Char
  | .character c => c
  | .broken _ => replacement

/-- The segments that bytes are read in. -/
inductive Segmented : List UInt8 → List Segment → Prop where
  | nil : Segmented [] []
  | character {c rest segments} :
      Segmented rest segments →
      Segmented (String.utf8EncodeChar c ++ rest) (.character c :: segments)
  | broken {bytes rest segments} :
      Broken bytes rest → Segmented rest segments →
      Segmented (bytes ++ rest) (.broken bytes :: segments)

/-!
## The bytes of a character
-/

theorem toNat_valid (c : Char) :
    c.toNat < 0xD800 ∨ 0xDFFF < c.toNat ∧ c.toNat < 0x110000 :=
  c.valid

theorem exists_char (code : Nat) (valid : code < 0xD800 ∨ 0xDFFF < code ∧ code < 0x110000) :
    ∃ c : Char, c.toNat = code := by
  refine ⟨Char.ofNat code, ?_⟩
  rw [Char.ofNat, dif_pos valid]
  rfl

/-- A character is written in one to four bytes, by its code. -/
inductive Spells (c : Char) : List UInt8 → Prop where
  | one {a} : c.toNat < 0x80 → a.toNat = c.toNat → Spells c [a]
  | two {a b} : 0x80 ≤ c.toNat → c.toNat < 0x800 →
      a.toNat = 0xC0 + c.toNat / 64 → b.toNat = 0x80 + c.toNat % 64 → Spells c [a, b]
  | three {a b d} : 0x800 ≤ c.toNat → c.toNat < 0x10000 →
      a.toNat = 0xE0 + c.toNat / 4096 → b.toNat = 0x80 + c.toNat / 64 % 64 →
      d.toNat = 0x80 + c.toNat % 64 → Spells c [a, b, d]
  | four {a b d e} : 0x10000 ≤ c.toNat → c.toNat < 0x110000 →
      a.toNat = 0xF0 + c.toNat / 262144 → b.toNat = 0x80 + c.toNat / 4096 % 64 →
      d.toNat = 0x80 + c.toNat / 64 % 64 → e.toNat = 0x80 + c.toNat % 64 → Spells c [a, b, d, e]

theorem spells_utf8EncodeChar (c : Char) : Spells c (String.utf8EncodeChar c) := by
  have valid := toNat_valid c
  simp only [String.utf8EncodeChar, Char.toNat_val]
  split
  case isTrue =>
    refine .one (by omega) ?_
    rw [UInt8.toNat_ofNat']
    omega
  split
  case isTrue => refine .two (by omega) (by omega) ?_ ?_ <;> rw [UInt8.toNat_ofNat'] <;> omega
  split
  case isTrue => refine .three (by omega) (by omega) ?_ ?_ ?_ <;> rw [UInt8.toNat_ofNat'] <;> omega
  case isFalse =>
    refine .four (by omega) (by omega) ?_ ?_ ?_ ?_ <;> rw [UInt8.toNat_ofNat'] <;> omega

theorem Spells.unique {c : Char} {bytes others : List UInt8} (spells : Spells c bytes)
    (also : Spells c others) : bytes = others := by
  cases spells <;> cases also <;>
    first | omega | (simp only [List.cons.injEq, ← UInt8.toNat_inj, and_true]; omega)

theorem utf8EncodeChar_eq_iff {c : Char} {bytes : List UInt8} :
    String.utf8EncodeChar c = bytes ↔ Spells c bytes := by
  constructor
  · intro same
    exact same ▸ spells_utf8EncodeChar c
  · exact (spells_utf8EncodeChar c).unique

/-- No character begins another one. -/
theorem utf8EncodeChar_append_inj {c d : Char} {rest other : List UInt8}
    (same : String.utf8EncodeChar c ++ rest = String.utf8EncodeChar d ++ other) :
    c = d ∧ rest = other := by
  have first := ByteArray.utf8DecodeChar?_utf8EncodeChar_append (c := c) (b := rest.toByteArray)
  rw [← List.toByteArray_append, same, List.toByteArray_append,
    ByteArray.utf8DecodeChar?_utf8EncodeChar_append] at first
  cases first
  exact ⟨rfl, List.append_cancel_left same⟩

/-- A byte below `0x80` is a character of its own and no part of another one. -/
theorem toNat_eq_of_mem_utf8EncodeChar {c : Char} {byte : UInt8}
    (member : byte ∈ String.utf8EncodeChar c) (ascii : byte.toNat < 0x80) :
    c.toNat = byte.toNat := by
  have spells := spells_utf8EncodeChar c
  generalize String.utf8EncodeChar c = bytes at member spells
  cases spells <;> simp only [List.mem_cons, List.not_mem_nil, or_false] at member <;> grind

/-!
## Sequences that have begun
-/

namespace Pending

def Admits (pending : Pending) (byte : UInt8) : Prop :=
  pending.least ≤ byte.toNat ∧ byte.toNat ≤ pending.greatest

/-- The bits of a sequence and of one more byte. -/
def append (pending : Pending) (byte : UInt8) : Nat :=
  pending.bits * 64 + (byte.toNat - 0x80)

theorem append_eq (pending : Pending) (byte : UInt8) :
    pending.append byte = pending.bits * 64 + (byte.toNat - 0x80) := by
  unfold append
  rfl

def next (pending : Pending) (byte : UInt8) : Pending :=
  { bits := pending.append byte, missing := pending.missing - 1 }

private theorem exists_admits {pending : Pending} (bounds : pending.least ≤ pending.greatest)
    (last : pending.greatest < 256) : ∃ byte, pending.Admits byte := by
  refine ⟨UInt8.ofNat pending.least, ?_⟩
  rw [Admits, UInt8.toNat_ofNat']
  omega

/-- Behind its second byte a sequence goes on with any byte that continues one. -/
theorem next_admits (pending : Pending) (byte : UInt8) : (pending.next byte).Admits 0x80 := by
  simp only [next, Admits]
  decide

end Pending

/-- Bytes that complete a sequence, and the code of the character that they make with it. -/
inductive Completes : Pending → List UInt8 → Nat → Prop where
  | last {pending byte} : pending.missing = 1 → pending.Admits byte →
      Completes pending [byte] (pending.append byte)
  | further {pending byte bytes code} : pending.missing ≠ 1 → pending.Admits byte →
      Completes (pending.next byte) bytes code → Completes pending (byte :: bytes) code

section Completion

variable {pending : Pending} {bytes : List UInt8} {code : Nat}

private theorem completes_last_iff (one : pending.missing = 1) :
    Completes pending bytes code ↔
      ∃ last, bytes = [last] ∧ pending.Admits last ∧ code = pending.append last := by
  constructor
  · intro completes
    cases completes with
    | last _ admits => exact ⟨_, rfl, admits, rfl⟩
    | further more => exact absurd one more
  · intro parts
    rcases parts with ⟨last, rfl, admits, same⟩
    rw [same]
    exact .last one admits

private theorem completes_further_iff (more : pending.missing ≠ 1) :
    Completes pending bytes code ↔
      ∃ first rest, bytes = first :: rest ∧ pending.Admits first ∧
        Completes (pending.next first) rest code := by
  constructor
  · intro completes
    cases completes with
    | last one => exact absurd one more
    | further _ admits completes => exact ⟨_, _, rfl, admits, completes⟩
  · intro parts
    rcases parts with ⟨first, rest, rfl, admits, completes⟩
    exact .further more admits completes

private theorem completes_two_iff (two : pending.missing = 2) :
    Completes pending bytes code ↔
      ∃ first last, bytes = [first, last] ∧ pending.Admits first ∧
        (pending.next first).Admits last ∧ code = (pending.next first).append last := by
  rw [completes_further_iff (by omega)]
  have one : ∀ first, (pending.next first).missing = 1 := by
    intro first
    simp only [Pending.next, two]
  constructor
  · intro parts
    rcases parts with ⟨first, rest, rfl, admits, completes⟩
    rcases (completes_last_iff (one first)).1 completes with ⟨last, rfl, further, same⟩
    exact ⟨first, last, rfl, admits, further, same⟩
  · intro parts
    rcases parts with ⟨first, last, rfl, admits, further, same⟩
    exact ⟨first, [last], rfl, admits,
      (completes_last_iff (one first)).2 ⟨last, rfl, further, same⟩⟩

private theorem completes_three_iff (three : pending.missing = 3) :
    Completes pending bytes code ↔
      ∃ first second last, bytes = [first, second, last] ∧ pending.Admits first ∧
        (pending.next first).Admits second ∧ ((pending.next first).next second).Admits last ∧
        code = ((pending.next first).next second).append last := by
  rw [completes_further_iff (by omega)]
  have two : ∀ first, (pending.next first).missing = 2 := by
    intro first
    simp only [Pending.next, three]
  constructor
  · intro parts
    rcases parts with ⟨first, rest, rfl, admits, completes⟩
    rcases (completes_two_iff (two first)).1 completes with ⟨second, last, rfl, further⟩
    exact ⟨first, second, last, rfl, admits, further⟩
  · intro parts
    rcases parts with ⟨first, second, last, rfl, admits, further⟩
    exact ⟨first, [second, last], rfl, admits,
      (completes_two_iff (two first)).2 ⟨second, last, rfl, further⟩⟩

private theorem Completes.admits {byte : UInt8}
    (completes : Completes pending (byte :: bytes) code) :
    pending.Admits byte := by
  cases completes with
  | last _ admits => exact admits
  | further _ admits => exact admits

private theorem Completes.ne_nil (completes : Completes pending bytes code) : bytes ≠ [] := by
  cases completes <;> exact List.cons_ne_nil _ _

private theorem exists_completes (awaits : 1 ≤ pending.missing) {byte : UInt8}
    (admits : pending.Admits byte) : ∃ bytes code, Completes pending (byte :: bytes) code := by
  rcases Nat.exists_eq_add_of_le awaits with ⟨missing, rest⟩
  induction missing generalizing pending byte with
  | zero => exact ⟨[], _, .last rest admits⟩
  | succ missing ih =>
      have more : (pending.next byte).missing = 1 + missing := by
        simp only [Pending.next]
        omega
      rcases ih (by omega) (pending.next_admits byte) more with ⟨bytes, code, completes⟩
      exact ⟨_, code, .further (by omega) admits completes⟩

end Completion

/-- What completes the sequence is what remains of a character that begins with these bytes. -/
def Awaits (begun : List UInt8) (pending : Pending) : Prop :=
  ∀ bytes code, Completes pending bytes code ↔
    ∃ c : Char, c.toNat = code ∧ String.utf8EncodeChar c = begun ++ bytes

/-- A sequence that has begun with these bytes and can still become a character. -/
structure Begun (begun : List UInt8) (pending : Pending) : Prop where
  nonempty : begun ≠ []
  missing : 1 ≤ pending.missing
  admitted : ∃ byte, pending.Admits byte
  awaits : Awaits begun pending

section Lead

variable {byte : UInt8}

private theorem awaits_two (low : 0xC2 ≤ byte.toNat) (high : byte.toNat < 0xE0) :
    Awaits [byte] { bits := byte.toNat - 0xC0, missing := 1 } := by
  intro bytes code
  rw [completes_last_iff rfl]
  simp only [Pending.append_eq, Pending.Admits, utf8EncodeChar_eq_iff, List.singleton_append]
  constructor
  · intro completes
    rcases completes with ⟨second, rfl, inside, same⟩
    rcases exists_char code (by omega) with ⟨c, rfl⟩
    exact ⟨c, rfl, by apply Spells.two <;> omega⟩
  · intro character
    rcases character with ⟨c, rfl, spells⟩
    cases spells with
    | two => exact ⟨_, rfl, by omega, by omega⟩
    | one | three | four => omega

private theorem awaits_three (low : 0xE0 ≤ byte.toNat) (high : byte.toNat < 0xF0) :
    Awaits [byte]
      { bits := byte.toNat - 0xE0
        missing := 2
        least := if byte.toNat = 0xE0 then 0xA0 else 0x80
        greatest := if byte.toNat = 0xED then 0x9F else 0xBF } := by
  intro bytes code
  rw [completes_two_iff rfl]
  simp only [Pending.next, Pending.append_eq, Pending.Admits, utf8EncodeChar_eq_iff,
    List.singleton_append]
  constructor
  · intro completes
    rcases completes with ⟨second, third, rfl, inside, further, same⟩
    have bounds : (byte.toNat = 0xE0 → 0xA0 ≤ second.toNat) ∧
        (byte.toNat = 0xED → second.toNat ≤ 0x9F) ∧ 0x80 ≤ second.toNat ∧ second.toNat ≤ 0xBF := by
      split at inside <;> split at inside <;> omega
    rcases exists_char code (by omega) with ⟨c, rfl⟩
    exact ⟨c, rfl, by apply Spells.three <;> omega⟩
  · intro character
    rcases character with ⟨c, rfl, spells⟩
    have valid := toNat_valid c
    cases spells with
    | three =>
        refine ⟨_, _, rfl, ⟨?_, ?_⟩, by omega, by omega⟩ <;> split <;> omega
    | one | two | four => omega

private theorem awaits_four (low : 0xF0 ≤ byte.toNat) (high : byte.toNat < 0xF5) :
    Awaits [byte]
      { bits := byte.toNat - 0xF0
        missing := 3
        least := if byte.toNat = 0xF0 then 0x90 else 0x80
        greatest := if byte.toNat = 0xF4 then 0x8F else 0xBF } := by
  intro bytes code
  rw [completes_three_iff rfl]
  simp only [Pending.next, Pending.append_eq, Pending.Admits, utf8EncodeChar_eq_iff,
    List.singleton_append]
  constructor
  · intro completes
    rcases completes with ⟨second, third, fourth, rfl, inside, further, last, same⟩
    have bounds : (byte.toNat = 0xF0 → 0x90 ≤ second.toNat) ∧
        (byte.toNat = 0xF4 → second.toNat ≤ 0x8F) ∧ 0x80 ≤ second.toNat ∧ second.toNat ≤ 0xBF := by
      split at inside <;> split at inside <;> omega
    rcases exists_char code (by omega) with ⟨c, rfl⟩
    exact ⟨c, rfl, by apply Spells.four <;> omega⟩
  · intro character
    rcases character with ⟨c, rfl, spells⟩
    cases spells with
    | four =>
        refine ⟨_, _, _, rfl, ⟨?_, ?_⟩, by omega, by omega, by omega⟩ <;> split <;> omega
    | one | two | three => omega

private theorem begun_two (low : 0xC2 ≤ byte.toNat) (high : byte.toNat < 0xE0) :
    Begun [byte] { bits := byte.toNat - 0xC0, missing := 1 } where
  nonempty := List.cons_ne_nil _ _
  missing := by simp
  admitted := Pending.exists_admits (by simp) (by simp)
  awaits := awaits_two low high

private theorem begun_three (low : 0xE0 ≤ byte.toNat) (high : byte.toNat < 0xF0) :
    Begun [byte]
      { bits := byte.toNat - 0xE0
        missing := 2
        least := if byte.toNat = 0xE0 then 0xA0 else 0x80
        greatest := if byte.toNat = 0xED then 0x9F else 0xBF } where
  nonempty := List.cons_ne_nil _ _
  missing := by simp
  admitted := Pending.exists_admits (by dsimp only; split <;> split <;> omega)
    (by dsimp only; split <;> omega)
  awaits := awaits_three low high

private theorem begun_four (low : 0xF0 ≤ byte.toNat) (high : byte.toNat < 0xF5) :
    Begun [byte]
      { bits := byte.toNat - 0xF0
        missing := 3
        least := if byte.toNat = 0xF0 then 0x90 else 0x80
        greatest := if byte.toNat = 0xF4 then 0x8F else 0xBF } where
  nonempty := List.cons_ne_nil _ _
  missing := by simp
  admitted := Pending.exists_admits (by dsimp only; split <;> split <;> omega)
    (by dsimp only; split <;> omega)
  awaits := awaits_four low high

theorem utf8EncodeChar_ofNat (ascii : byte.toNat < 0x80) :
    String.utf8EncodeChar (Char.ofNat byte.toNat) = [byte] := by
  rcases exists_char byte.toNat (by omega) with ⟨c, same⟩
  rw [← same, Char.ofNat_toNat, utf8EncodeChar_eq_iff]
  exact .one (by omega) same.symm

private theorem not_begins (outside : 0x80 ≤ byte.toNat ∧ byte.toNat < 0xC2 ∨ 0xF5 ≤ byte.toNat) :
    ¬ BeginsCharacter [byte] := by
  intro begins
  rcases begins with ⟨c, rest, spelled⟩
  rw [utf8EncodeChar_eq_iff, List.singleton_append] at spelled
  cases spelled <;> omega

/-- A byte that continues no sequence is a character, begins one or is none. -/
theorem start_cases (decoder : Decoder) (byte : UInt8) :
    (∃ c, String.utf8EncodeChar c = [byte] ∧ decoder.start byte.toNat = decoder.emit c) ∨
    (¬ BeginsCharacter [byte] ∧ decoder.start byte.toNat = decoder.emit replacement) ∨
    ∃ pending, Begun [byte] pending ∧ decoder.start byte.toNat = decoder.await pending := by
  rw [Decoder.start]
  split
  case isTrue ascii => exact .inl ⟨_, utf8EncodeChar_ofNat ascii, rfl⟩
  split
  case isTrue => exact .inr (.inl ⟨not_begins (by omega), rfl⟩)
  split
  case isTrue => exact .inr (.inr ⟨_, begun_two (by omega) (by omega), rfl⟩)
  split
  case isTrue => exact .inr (.inr ⟨_, begun_three (by omega) (by omega), rfl⟩)
  split
  case isTrue => exact .inr (.inr ⟨_, begun_four (by omega) (by omega), rfl⟩)
  case isFalse => exact .inr (.inl ⟨not_begins (by omega), rfl⟩)

end Lead

namespace Begun

variable {begun : List UInt8} {pending : Pending} {byte : UInt8}

theorem begins (sequence : Begun begun pending) : BeginsCharacter begun := by
  rcases sequence.admitted with ⟨byte, admits⟩
  rcases exists_completes sequence.missing admits with ⟨bytes, code, completes⟩
  rcases (sequence.awaits _ _).1 completes with ⟨c, _, spelled⟩
  exact ⟨c, _, spelled⟩

private theorem last (sequence : Begun begun pending) (one : pending.missing = 1)
    (admits : pending.Admits byte) :
    String.utf8EncodeChar (Char.ofNat (pending.append byte)) = begun ++ [byte] := by
  rcases (sequence.awaits _ _).1 (.last one admits) with ⟨c, same, spelled⟩
  rw [← same, Char.ofNat_toNat]
  exact spelled

private theorem further (sequence : Begun begun pending) (more : pending.missing ≠ 1)
    (admits : pending.Admits byte) : Begun (begun ++ [byte]) (pending.next byte) where
  nonempty := by simp
  missing := by
    have := sequence.missing
    simp only [Pending.next]
    omega
  admitted := ⟨_, pending.next_admits byte⟩
  awaits := by
    intro bytes code
    rw [List.append_assoc, List.singleton_append, ← sequence.awaits, completes_further_iff more]
    constructor
    · intro completes
      exact ⟨byte, bytes, rfl, admits, completes⟩
    · intro completes
      rcases completes with ⟨first, rest, same, _, completes⟩
      cases same
      exact completes

/-- A character that the bytes begin with goes on after the sequence. -/
theorem prefix_cases {rest : List UInt8} {c : Char} (sequence : Begun begun pending)
    (front : String.utf8EncodeChar c <+: begun ++ rest) :
    ∃ bytes, bytes <+: rest ∧ Completes pending bytes c.toNat := by
  rcases front with ⟨tail, whole⟩
  rcases List.append_eq_append_iff.1 whole with ⟨more, short, _⟩ | ⟨bytes, long, same⟩
  · rcases sequence.begins with ⟨d, missing, spelled⟩
    rw [short, List.append_assoc, ← List.append_nil (String.utf8EncodeChar d)] at spelled
    rcases utf8EncodeChar_append_inj spelled with ⟨_, behind⟩
    have nothing := (List.append_eq_nil_iff.1 behind.symm).1
    rw [nothing] at short
    exact ⟨[], List.nil_prefix, (sequence.awaits _ _).2 ⟨c, rfl, by simpa using short.symm⟩⟩
  · exact ⟨bytes, ⟨tail, same.symm⟩, (sequence.awaits _ _).2 ⟨c, rfl, long⟩⟩

/-- A sequence that the next byte, or the end, breaks off. -/
theorem broken {rest : List UInt8} (sequence : Begun begun pending)
    (stuck : ∀ next ∈ rest.head?, ¬ pending.Admits next) : Broken begun rest where
  nonempty := sequence.nonempty
  begins := .inl sequence.begins
  longest := by
    intro next first begins
    rcases begins with ⟨c, tail, spelled⟩
    rw [List.append_assoc] at spelled
    exact stuck next first ((sequence.awaits _ _).2 ⟨c, rfl, spelled⟩).admits
  noCharacter := by
    intro c front
    rcases sequence.prefix_cases front with ⟨bytes, ⟨tail, same⟩, completes⟩
    cases bytes with
    | nil => exact completes.ne_nil rfl
    | cons next bytes =>
        rw [← same] at stuck
        exact stuck next rfl completes.admits

end Begun

private theorem broken_alone {byte : UInt8} (never : ¬ BeginsCharacter [byte]) (rest : List UInt8) :
    Broken [byte] rest where
  nonempty := List.cons_ne_nil _ _
  begins := .inr rfl
  longest := by
    intro next _ begins
    rcases begins with ⟨c, tail, spelled⟩
    exact never ⟨c, [next] ++ tail, by rw [spelled, List.append_assoc]⟩
  noCharacter := by
    intro c front
    rcases front with ⟨tail, whole⟩
    cases spelled : String.utf8EncodeChar c with
    | nil => exact String.utf8EncodeChar_ne_nil spelled
    | cons first others =>
        rw [spelled] at whole
        cases whole
        exact never ⟨c, others, spelled⟩

/-!
## The decoder
-/

namespace Decoder

private theorem step_none {decoder : Decoder} (idle : decoder.pending = none) (byte : UInt8) :
    decoder.step byte = decoder.start byte.toNat := by
  rw [step, idle]

private theorem step_last {decoder : Decoder} {pending : Pending} {byte : UInt8}
    (begun : decoder.pending = some pending) (admits : pending.Admits byte)
    (one : pending.missing = 1) :
    decoder.step byte = decoder.emit (Char.ofNat (pending.append byte)) := by
  unfold step
  rw [begun]
  exact (if_pos admits).trans (if_pos one)

private theorem step_further {decoder : Decoder} {pending : Pending} {byte : UInt8}
    (begun : decoder.pending = some pending) (admits : pending.Admits byte)
    (more : pending.missing ≠ 1) : decoder.step byte = decoder.await (pending.next byte) := by
  unfold step
  rw [begun]
  exact (if_pos admits).trans (if_neg more)

private theorem step_broken {decoder : Decoder} {pending : Pending} {byte : UInt8}
    (begun : decoder.pending = some pending) (refuses : ¬ pending.Admits byte) :
    decoder.step byte = (decoder.emit replacement).step byte := by
  have idle : (decoder.emit replacement).pending = none := rfl
  rw [step_none idle]
  unfold step
  rw [begun]
  exact if_neg refuses

/-- After the characters `read`, in reverse, the decoder finds one more text, for which `whole`
stands, by taking `bytes`. -/
def Continues (decoder : Decoder) (read : List Char) (bytes whole : List UInt8) : Prop :=
  ∃ text, Reads whole text ∧ (bytes.foldl step decoder).finish = read.reverse ++ text

section Continuation

variable {decoder : Decoder} {read : List Char} {bytes rest : List UInt8}

theorem Continues.character {c : Char} (continues : decoder.Continues (c :: read) bytes rest) :
    decoder.Continues read bytes (String.utf8EncodeChar c ++ rest) := by
  rcases continues with ⟨text, reads, same⟩
  refine ⟨c :: text, .character reads, ?_⟩
  rw [same, List.reverse_cons, List.append_assoc, List.singleton_append]

theorem Continues.replaced {front : List UInt8} (broken : Broken front rest)
    (continues : decoder.Continues (replacement :: read) bytes rest) :
    decoder.Continues read bytes (front ++ rest) := by
  rcases continues with ⟨text, reads, same⟩
  refine ⟨replacement :: text, .broken broken reads, ?_⟩
  rw [same, List.reverse_cons, List.append_assoc, List.singleton_append]

end Continuation

/-- The invariant of the decoder: what it still reads begins with the sequence it has begun. -/
theorem continues (bytes : List UInt8) (decoder : Decoder) :
    (decoder.pending = none → decoder.Continues decoder.read bytes bytes) ∧
    ∀ begun pending, Begun begun pending → decoder.pending = some pending →
      decoder.Continues decoder.read bytes (begun ++ bytes) := by
  induction bytes generalizing decoder with
  | nil =>
      constructor
      · intro idle
        exact ⟨[], .nil, by simp [finish, idle]⟩
      · intro begun pending sequence waiting
        refine ⟨[replacement], .broken (sequence.broken (by simp)) .nil, ?_⟩
        simp [finish, waiting, emit]
  | cons byte bytes ih =>
      have idle (decoder : Decoder) (rests : decoder.pending = none) :
          decoder.Continues decoder.read (byte :: bytes) (byte :: bytes) := by
        rw [Continues, List.foldl_cons, step_none rests]
        rcases start_cases decoder byte with ⟨c, spelled, same⟩ | ⟨never, same⟩ |
          ⟨pending, sequence, same⟩ <;> rw [same]
        · have reads := Continues.character ((ih (decoder.emit c)).1 rfl)
          rwa [spelled] at reads
        · exact Continues.replaced (broken_alone never bytes) ((ih (decoder.emit _)).1 rfl)
        · exact (ih (decoder.await pending)).2 _ _ sequence rfl
      refine ⟨idle decoder, ?_⟩
      intro begun pending sequence waiting
      by_cases admits : pending.Admits byte
      · rw [Continues, List.foldl_cons, List.append_cons]
        by_cases one : pending.missing = 1
        · rw [step_last waiting admits one, ← sequence.last one admits]
          exact Continues.character ((ih (decoder.emit _)).1 rfl)
        · rw [step_further waiting admits one]
          exact (ih (decoder.await _)).2 _ _ (sequence.further one admits) rfl
      · have broken : Broken begun (byte :: bytes) := sequence.broken (by simpa using admits)
        rw [Continues, List.foldl_cons, step_broken waiting admits, ← List.foldl_cons]
        exact Continues.replaced broken (idle (decoder.emit _) rfl)

end Decoder

/-!
## The reading
-/

theorem reads_decode (bytes : List UInt8) : Reads bytes (decode bytes) := by
  rcases (Decoder.continues bytes {}).1 rfl with ⟨text, reads, same⟩
  rw [decode, same]
  exact reads

private theorem BeginsCharacter.of_append {bytes more : List UInt8}
    (begins : BeginsCharacter (bytes ++ more)) : BeginsCharacter bytes := by
  rcases begins with ⟨c, rest, spelled⟩
  exact ⟨c, more ++ rest, by rw [spelled, List.append_assoc]⟩

/-- Nothing longer is replaced. -/
theorem Broken.not_longer {bytes rest more other : List UInt8} {next : UInt8}
    (broken : Broken bytes (next :: rest)) (longer : Broken (bytes ++ next :: more) other) :
    False := by
  rcases longer.begins with begins | single
  · rw [List.append_cons] at begins
    exact broken.longest next rfl begins.of_append
  · have := List.length_pos_iff.2 broken.nonempty
    simp only [List.length_append, List.length_cons] at single
    omega

theorem Broken.unique {bytes rest others remaining : List UInt8} (broken : Broken bytes rest)
    (other : Broken others remaining) (same : bytes ++ rest = others ++ remaining) :
    bytes = others ∧ rest = remaining := by
  rcases List.append_eq_append_iff.1 same with ⟨more, longer, left⟩ | ⟨more, longer, left⟩ <;>
    subst longer left
  · cases more with
    | nil => simp
    | cons next more => exact (broken.not_longer other).elim
  · cases more with
    | nil => simp
    | cons next more => exact (other.not_longer broken).elim

/-- Bytes are read in segments in one way only. -/
theorem Segmented.unique {bytes : List UInt8} {segments others : List Segment}
    (segmented : Segmented bytes segments) (also : Segmented bytes others) : segments = others := by
  induction segmented generalizing others with
  | nil =>
      generalize empty : [] = bytes at also
      cases also with
      | nil => rfl
      | character _ =>
          exact (String.utf8EncodeChar_ne_nil (List.append_eq_nil_iff.1 empty.symm).1).elim
      | broken broken _ => exact (broken.nonempty (List.append_eq_nil_iff.1 empty.symm).1).elim
  | @character c rest _ _ ih =>
      generalize same : String.utf8EncodeChar c ++ rest = bytes at also
      cases also with
      | nil => exact (String.utf8EncodeChar_ne_nil (List.append_eq_nil_iff.1 same).1).elim
      | character further =>
          rcases utf8EncodeChar_append_inj same with ⟨head, tail⟩
          rw [head, ih (tail ▸ further)]
      | broken broken _ => exact (broken.noCharacter c ⟨rest, same⟩).elim
  | @broken bytes rest _ broken _ ih =>
      generalize same : bytes ++ rest = whole at also
      cases also with
      | nil => exact (broken.nonempty (List.append_eq_nil_iff.1 same).1).elim
      | @character c _ _ _ => exact (broken.noCharacter c ⟨_, same.symm⟩).elim
      | broken other further =>
          rcases broken.unique other same with ⟨head, tail⟩
          rw [head, ih (tail ▸ further)]

theorem Segmented.reads {bytes : List UInt8} {segments : List Segment}
    (segmented : Segmented bytes segments) : Reads bytes (segments.map Segment.char) := by
  induction segmented with
  | nil => exact .nil
  | character _ ih => exact .character ih
  | broken broken _ ih => exact .broken broken ih

theorem Reads.exists_segmented {bytes : List UInt8} {text : List Char} (reads : Reads bytes text) :
    ∃ segments, Segmented bytes segments ∧ segments.map Segment.char = text := by
  induction reads with
  | nil => exact ⟨[], .nil, rfl⟩
  | character _ ih =>
      rcases ih with ⟨segments, segmented, same⟩
      exact ⟨_, .character segmented, congrArg (_ :: ·) same⟩
  | broken broken _ ih =>
      rcases ih with ⟨segments, segmented, same⟩
      exact ⟨_, .broken broken segmented, congrArg (_ :: ·) same⟩

theorem Reads.unique {bytes : List UInt8} {text other : List Char} (reads : Reads bytes text)
    (also : Reads bytes other) : text = other := by
  rcases reads.exists_segmented with ⟨segments, segmented, rfl⟩
  rcases also.exists_segmented with ⟨others, further, rfl⟩
  rw [segmented.unique further]

theorem reads_iff {bytes : List UInt8} {text : List Char} :
    Reads bytes text ↔ decode bytes = text := by
  constructor
  · intro reads
    exact (reads_decode bytes).unique reads
  · intro same
    exact same ▸ reads_decode bytes

/-- The segments of bytes are read as the characters that the decoder finds. -/
theorem exists_segmented (bytes : List UInt8) :
    ∃ segments, Segmented bytes segments ∧ segments.map Segment.char = decode bytes :=
  (reads_decode bytes).exists_segmented

example : decode [0xF0, 0x9F, 0x41, 0x80] = [replacement, 'A', replacement] := by decide

def encode (text : List Char) : List UInt8 :=
  text.flatMap String.utf8EncodeChar

theorem decode_encode (text : List Char) : decode (encode text) = text := by
  rw [← reads_iff]
  induction text with
  | nil => exact .nil
  | cons c text ih => exact .character ih

theorem toUTF8_eq_encode (text : String) : text.toUTF8.data.toList = encode text.toList := by
  rw [String.toUTF8_eq_toByteArray, ← String.utf8Encode_toList, List.utf8Encode,
    List.toList_data_toByteArray]
  rfl

end Calculator.Text
