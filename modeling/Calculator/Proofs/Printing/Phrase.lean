import Calculator.Proofs.Parser.Soundness
import Calculator.Proofs.Number.Word

/-!
# Trees as they are printed

Printing puts every operation into a group. So the printed phrase of a tree can stand wherever an
application can, it has the tree that it was printed from, and its groups cost levels of nesting.
-/

set_option autoImplicit false

namespace Calculator

/-- A name that a text can write: a letter or an underscore, then letters, digits and underscores. -/
def IsName (name : String) : Prop :=
  ∃ first rest, name.toList = first :: rest ∧ isNameStart first = true ∧
    ∀ c ∈ rest, isNamePart c = true

namespace Expr

mutual

def Printable : Expr → Prop
  | .number value => IsUnsigned value
  | .identifier name => IsName name
  | .signed _ operand => operand.Printable
  | .binary left _ right => left.Printable ∧ right.Printable
  | .call function arguments => function.Printable ∧ AllPrintable arguments

def AllPrintable : List Expr → Prop
  | [] => True
  | argument :: arguments => argument.Printable ∧ AllPrintable arguments

end

mutual

/-- How many expressions deep reading the printed tree goes, the tree itself included. -/
def printedDepth : Expr → Nat
  | .number _ => 1
  | .identifier _ => 1
  | .signed _ operand => 2 + operand.printedDepth
  | .binary left _ right => 1 + max left.printedDepth (1 + right.printedDepth)
  | .call function arguments => max function.printedDepth (deepestPrinted arguments)

/-- One more than the depth of the deepest argument, and nothing without arguments. -/
def deepestPrinted : List Expr → Nat
  | [] => 0
  | argument :: arguments => max (1 + argument.printedDepth) (deepestPrinted arguments)

end

mutual

def phrase : Expr → Phrase
  | .number value => .number value
  | .identifier name => .identifier name
  | .signed sign operand => .group (.signed sign operand.phrase)
  | .binary left operator right => .group (.binary left.phrase operator right.phrase)
  | .call function arguments => .call function.phrase (phrases arguments)

def phrases : List Expr → List Phrase
  | [] => []
  | argument :: arguments => argument.phrase :: phrases arguments

end

/-!
## What printing keeps
-/

mutual

theorem tree_phrase : (expr : Expr) → expr.phrase.tree = expr
  | .number _ => rfl
  | .identifier _ => rfl
  | .signed _ operand => by rw [phrase, Phrase.tree, Phrase.tree, tree_phrase operand]
  | .binary left _ right => by
      rw [phrase, Phrase.tree, Phrase.tree, tree_phrase left, tree_phrase right]
  | .call function arguments => by
      rw [phrase, Phrase.tree, tree_phrase function, trees_phrases arguments]

theorem trees_phrases : (arguments : List Expr) → Phrase.trees (phrases arguments) = arguments
  | [] => rfl
  | argument :: arguments => by
      rw [phrases, Phrase.trees, tree_phrase argument, trees_phrases arguments]

end

mutual

theorem depth_phrase : (expr : Expr) → expr.phrase.depth = expr.printedDepth
  | .number _ => rfl
  | .identifier _ => rfl
  | .signed _ operand => by
      rw [phrase, Phrase.depth, Phrase.depth, depth_phrase operand, printedDepth]
      omega
  | .binary left _ right => by
      rw [phrase, Phrase.depth, Phrase.depth, depth_phrase left, depth_phrase right, printedDepth]
      omega
  | .call function arguments => by
      rw [phrase, Phrase.depth, depth_phrase function, argumentDepth_phrases arguments,
        printedDepth]

theorem argumentDepth_phrases :
    (arguments : List Expr) → Phrase.argumentDepth (phrases arguments) = deepestPrinted arguments
  | [] => rfl
  | argument :: arguments => by
      rw [phrases, Phrase.argumentDepth, depth_phrase argument, argumentDepth_phrases arguments,
        deepestPrinted]
      omega

end

/-!
## Printed trees are phrases of the grammar
-/

theorem derives_binary {left right : Phrase} (leftDerived : Derives .application left)
    (operator : Operator) (rightDerived : Derives .application right) :
    Derives .sum (.binary left operator right) := by
  have drawn : Precedence.of operator.token ≤ Nonterminal.application.follow := by
    cases operator <;> decide
  have reaches : operator.rightPrecedence ≤ Nonterminal.application.threshold := by
    cases operator <;> decide
  exact (Derives.binary leftDerived rightDerived drawn reaches).toSum

mutual

/-- A printed tree can be called, so it can stand everywhere. -/
theorem derives_phrase : (expr : Expr) → Derives .application expr.phrase
  | .number _ => .ofPrimary .number
  | .identifier _ => .ofPrimary .identifier
  | .signed _ operand =>
      .ofPrimary (.group (Derives.signed (.ofApplication (derives_phrase operand))).toSum)
  | .binary left operator right =>
      .ofPrimary (.group (derives_binary (derives_phrase left) operator (derives_phrase right)))
  | .call function arguments => .call (derives_phrase function) (derives_phrases arguments)

theorem derives_phrases :
    (arguments : List Expr) → ∀ phrase ∈ phrases arguments, Derives .sum phrase
  | [] => nofun
  | argument :: arguments =>
      List.forall_mem_cons.mpr ⟨(derives_phrase argument).toSum, derives_phrases arguments⟩

end

/-- A printed tree fits if neither its height nor its printed depth exceeds the limit. -/
theorem fitsWithin_phrase_iff (expr : Expr) :
    expr.phrase.FitsWithin 0 ↔ expr.height ≤ maxNesting ∧ expr.printedDepth ≤ maxNesting := by
  rw [Phrase.FitsWithin, tree_phrase, depth_phrase, Nat.zero_add, and_comm]

end Expr

end Calculator
