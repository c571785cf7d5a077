import Calculator.Proofs.Parser.Agreement
import Calculator.Proofs.Printing.Tokens

/-!
# Printing and parsing

Parsing the text of a tree gives the tree back, unless the tree or the groups around its operations
nest too deeply.
-/

set_option autoImplicit false

namespace Calculator

private theorem splits_phrase {expr : Expr} (printable : expr.Printable) :
    Splits [expr.phrase] (tokenize expr.text) := by
  rw [expr.tokenize_text printable]
  exact .singleton expr.derives_phrase.toSum

/-- A tree that prints is the only statement of its text if it stays within the limit, in height and
in the depth of its printed form. Otherwise the limit is what is wrong with the text first. -/
theorem parse_text (expr : Expr) (printable : expr.Printable) :
    (expr.height ≤ maxNesting ∧ expr.printedDepth ≤ maxNesting →
      parse expr.text = .ok { statements := [expr] }) ∧
    (¬ (expr.height ≤ maxNesting ∧ expr.printedDepth ≤ maxNesting) →
      ∃ errors, parse expr.text = .error (.tooDeep maxNesting :: errors)) := by
  have split := splits_phrase printable
  rw [← expr.fitsWithin_phrase_iff]
  constructor
  · intro fits
    have parsed := parse_of_splits split (List.forall_mem_singleton.mpr fits)
    rw [parsed, List.map_singleton, expr.tree_phrase]
  · intro fails
    exact parse_tooDeep_of_splits split (mt List.forall_mem_singleton.mp fails)

theorem parse_text_call :
    Expr.Printable (.call (.signed .minus (.number 2.5)) [.identifier "x"]) ∧
      parse "(-2.5)(x)" =
        .ok { statements := [.call (.signed .minus (.number 2.5)) [.identifier "x"]] } := by
  have number : IsUnsigned 2.5 := ⟨by decide +kernel, by decide +kernel⟩
  have name : IsName "x" := ⟨'x', [], rfl, rfl, nofun⟩
  have printable : Expr.Printable (.call (.signed .minus (.number 2.5)) [.identifier "x"]) :=
    ⟨number, name, trivial⟩
  have written : Expr.text (.call (.signed .minus (.number 2.5)) [.identifier "x"]) =
      "(-2.5)(x)" := by
    decide +kernel
  exact ⟨printable, written ▸ (parse_text _ printable).1 (by decide)⟩

end Calculator
