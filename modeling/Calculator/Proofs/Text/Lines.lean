import Calculator.Text.Lines

/-!
# Cutting into lines

The rule by which a sequence is cut into lines, and that there is exactly one such cut. Behind the
end of a line a cut goes on as if nothing stood in front.
-/

set_option autoImplicit false

namespace Calculator.Text

variable {α : Type} {ends : α → Bool}

/-- A sequence is cut behind every symbol that ends a line, and nowhere else. -/
inductive LineCut (ends : α → Bool) : List α → List (List α) → Prop where
  | nil : LineCut ends [] []
  | unfinished {line} :
      line ≠ [] → (∀ symbol ∈ line, ends symbol = false) → LineCut ends line [line]
  | finished {content final rest lines} :
      (∀ symbol ∈ content, ends symbol = false) → ends final = true → LineCut ends rest lines →
      LineCut ends (content ++ final :: rest) ((content ++ [final]) :: lines)

private theorem linesFrom_eq_append (read : List (List α)) (begun symbols : List α) :
    linesFrom ends read begun symbols = read.reverse ++ linesFrom ends [] begun symbols := by
  induction symbols generalizing read begun with
  | nil =>
      simp only [linesFrom]
      split <;> simp
  | cons symbol rest ih =>
      simp only [linesFrom]
      split
      · rw [ih, ih [(symbol :: begun).reverse]]
        simp
      · exact ih read (symbol :: begun)

private theorem linesFrom_of_inside {content : List α}
    (inside : ∀ symbol ∈ content, ends symbol = false) (begun rest : List α) :
    linesFrom ends [] begun (content ++ rest) =
      linesFrom ends [] (content.reverse ++ begun) rest := by
  induction content generalizing begun with
  | nil => rfl
  | cons symbol content ih =>
      rcases List.forall_mem_cons.mp inside with ⟨first, further⟩
      simp [linesFrom, first, ih further]

private theorem lines_finished {content : List α} (inside : ∀ symbol ∈ content, ends symbol = false)
    {final : α} (last : ends final = true) (rest : List α) :
    lines ends (content ++ final :: rest) = (content ++ [final]) :: lines ends rest := by
  rw [lines, linesFrom_of_inside inside, linesFrom, if_pos last, linesFrom_eq_append]
  simp [lines]

private theorem lines_unfinished {line : List α} (nonempty : line ≠ [])
    (inside : ∀ symbol ∈ line, ends symbol = false) : lines ends line = [line] := by
  have whole := linesFrom_of_inside inside [] []
  rw [List.append_nil, List.append_nil] at whole
  simp [lines, whole, linesFrom, nonempty]

theorem LineCut.eq_lines {symbols : List α} {cut : List (List α)}
    (isCut : LineCut ends symbols cut) : cut = lines ends symbols := by
  induction isCut with
  | nil => rfl
  | unfinished nonempty inside => exact (lines_unfinished nonempty inside).symm
  | finished inside last _ ih => rw [lines_finished inside last, ih]

private theorem lineCut_linesFrom (begun : List α) (inside : ∀ symbol ∈ begun, ends symbol = false)
    (symbols : List α) :
    LineCut ends (begun.reverse ++ symbols) (linesFrom ends [] begun symbols) := by
  induction symbols generalizing begun with
  | nil =>
      rw [linesFrom, List.append_nil]
      split
      next empty =>
        rw [List.isEmpty_iff.mp empty]
        exact .nil
      next nonempty =>
        refine .unfinished (fun empty => nonempty ?_) fun symbol member => ?_
        · rw [List.reverse_eq_nil_iff.mp empty]
          rfl
        · exact inside symbol (List.mem_reverse.mp member)
  | cons symbol rest ih =>
      rw [linesFrom]
      split
      next last =>
        rw [linesFrom_eq_append, List.reverse_singleton, List.reverse_cons]
        exact .finished (fun symbol member => inside symbol (List.mem_reverse.mp member)) last
          (ih [] nofun)
      next other =>
        have further := ih _ (List.forall_mem_cons.mpr ⟨Bool.eq_false_iff.mpr other, inside⟩)
        rwa [List.reverse_cons, List.append_assoc] at further

theorem lineCut_lines (ends : α → Bool) (symbols : List α) :
    LineCut ends symbols (lines ends symbols) :=
  lineCut_linesFrom [] nofun symbols

theorem LineCut.append {front back : List α} {frontCut backCut : List (List α)}
    (first : LineCut ends front frontCut) (second : LineCut ends back backCut)
    (ended : ∀ symbol ∈ front.getLast?, ends symbol = true) :
    LineCut ends (front ++ back) (frontCut ++ backCut) := by
  induction first with
  | nil => exact second
  | @unfinished line nonempty inside =>
      have last := List.getLast?_eq_some_getLast nonempty
      have conflict := ended _ last
      rw [inside _ (List.getLast_mem nonempty)] at conflict
      cases conflict
  | @finished content final rest lines inside last _ ih =>
      rw [List.append_assoc, List.cons_append, List.cons_append]
      refine .finished inside last (ih fun symbol member => ended symbol ?_)
      cases rest with
      | nil => cases member
      | cons head tail => simpa using member

/-!
## Symbols at the end
-/

/-- A sequence without all symbols of one kind at its end. -/
structure TrimmedRight (drops : α → Bool) (symbols kept : List α) : Prop where
  dropped : ∃ rest, symbols = kept ++ rest ∧ ∀ symbol ∈ rest, drops symbol = true
  stops : ∀ symbol ∈ kept.getLast?, drops symbol = false

theorem trimRight_trimmed (drops : α → Bool) (symbols : List α) :
    TrimmedRight drops symbols (trimRight drops symbols) := by
  have whole := List.takeWhile_append_dropWhile (p := drops) (l := symbols.reverse)
  refine ⟨⟨(symbols.reverse.takeWhile drops).reverse, ?_, ?_⟩, ?_⟩
  · rw [trimRight, ← List.reverse_append, whole, List.reverse_reverse]
  · intro symbol member
    exact List.all_eq_true.mp List.all_takeWhile symbol (List.mem_reverse.mp member)
  · intro symbol last
    rw [trimRight, List.getLast?_reverse] at last
    have stops := List.head?_dropWhile_not drops symbols.reverse
    rw [Option.mem_def.mp last] at stops
    exact stops

private theorem trimRight_append_of_kept (drops : α → Bool) {final : α} (kept : drops final = false)
    (front back : List α) :
    trimRight drops (front ++ final :: back) = front ++ final :: trimRight drops back := by
  have stays : ((back.reverse ++ [final]) ++ front.reverse).dropWhile drops =
      back.reverse.dropWhile drops ++ ([final] ++ front.reverse) := by
    rw [List.append_assoc, List.dropWhile_append]
    split
    next empty => simp [List.isEmpty_iff.mp empty, kept]
    next => rfl
  simp only [trimRight, List.reverse_append, List.reverse_cons, stays]
  simp

private theorem trimRight_eq_nil {drops : α → Bool} {symbols : List α}
    (all : ∀ symbol ∈ symbols, drops symbol = true) : trimRight drops symbols = [] := by
  have dropped : (symbols.reverse ++ []).dropWhile drops = [] :=
    List.dropWhile_append_of_pos fun symbol member => all symbol (List.mem_reverse.mp member)
  rw [List.append_nil] at dropped
  rw [trimRight, dropped, List.reverse_nil]

/-- The lines that are ended are those of what is left when the sequence is cut off behind its last
end of a line. -/
theorem filter_ended_lines [BEq α] [LawfulBEq α] (final : α) (symbols : List α) :
    (lines (· == final) symbols).filter (fun line => line.getLast? == some final) =
      lines (· == final) (trimRight (· != final) symbols) := by
  have isCut := lineCut_lines (· == final) symbols
  generalize lines (· == final) symbols = cut at isCut
  induction isCut with
  | nil => rfl
  | @unfinished line nonempty inside =>
      have unended : (line.getLast? == some final) = false := by
        rw [List.getLast?_eq_some_getLast nonempty]
        exact inside _ (List.getLast_mem nonempty)
      have trimmed : trimRight (· != final) line = [] :=
        trimRight_eq_nil fun symbol member => by simp [bne, inside symbol member]
      rw [trimmed, List.filter_cons_of_neg (by simp [unended])]
      rfl
  | @finished content last rest cut inside ends further ih =>
      have kept : (last != final) = false := by simp [bne, ends]
      have stays := trimRight_append_of_kept (· != final) kept content rest
      rw [stays, lines_finished inside ends, ← ih, List.filter_cons_of_pos (by simpa using ends)]

end Calculator.Text
