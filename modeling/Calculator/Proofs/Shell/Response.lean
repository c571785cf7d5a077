import Calculator.Proofs.Juxtaposition
import Calculator.Shell.Response

/-!
# What a text is answered

An answer depends on nothing but the tokens of the text. A text of one phrase is answered with the
value of its tree.
-/

set_option autoImplicit false

namespace Calculator

/-- A text of one phrase that fits has the value of its tree. -/
theorem evaluate_of_phrase {source : String} {phrase : Phrase} (derived : Derives .sum phrase)
    (fits : phrase.FitsWithin 0) (read : tokenize source = phrase.tokens) :
    evaluate source = .ok (some phrase.tree.value) := by
  have split : Splits [phrase] (tokenize source) := read ▸ .singleton derived
  have parsed := parse_of_splits split (List.forall_mem_singleton.mpr fits)
  have result : Program.result { statements := [phrase.tree] } = some phrase.tree.value := by
    rw [Program.result, Program.resultFrom]
    split
    next cause failed => rw [failed]
    next => rfl
  rw [evaluate, parsed, List.map_singleton]
  dsimp only [Except.map]
  rw [result]

section Congruence

variable {source other : String} (same : tokenize source = tokenize other)
include same

theorem parse_congr : parse source = parse other := by
  rw [parse, parse, Parser.ofSource, Parser.ofSource, same]

theorem evaluate_congr : evaluate source = evaluate other := by
  rw [evaluate, evaluate, parse_congr same]

theorem Shell.response_congr : response source = response other := by
  rw [response, response, evaluate_congr same]

end Congruence

end Calculator
