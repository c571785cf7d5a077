import Calculator.Parser

/-!
# The grammar of expressions

Which sequences of tokens are expressions, said without a parser. A phrase is an expression as it is
spelled: it keeps the groups that its tree forgets. The rules below say which phrases belong to
which nonterminal, and thereby how operators bind and associate.

A phrase determines its tokens, its tree, and how deeply reading it nests.
-/

set_option autoImplicit false

namespace Calculator

def Sign.token : Sign → Token
  | .plus => .plus
  | .minus => .minus

def Operator.token : Operator → Token
  | .add => .plus
  | .sub => .minus
  | .mul => .star
  | .div => .slash
  | .pow => .starStar

inductive Phrase where
  | number (value : Float)
  | identifier (name : String)
  | group (inner : Phrase)
  | signed (sign : Sign) (operand : Phrase)
  | binary (left : Phrase) (operator : Operator) (right : Phrase)
  | call (function : Phrase) (arguments : List Phrase)

namespace Phrase

mutual

def tokens : Phrase → List Token
  | .number value => [.number value]
  | .identifier name => [.identifier name]
  | .group inner => .leftParen :: (inner.tokens ++ [.rightParen])
  | .signed sign operand => sign.token :: operand.tokens
  | .binary left operator right => left.tokens ++ operator.token :: right.tokens
  | .call function arguments =>
      function.tokens ++ .leftParen :: (argumentTokens arguments ++ [.rightParen])

/-- Arguments with commas between them. -/
def argumentTokens : List Phrase → List Token
  | [] => []
  | argument :: arguments => argument.tokens ++ furtherTokens arguments

/-- Arguments with a comma in front of each. -/
def furtherTokens : List Phrase → List Token
  | [] => []
  | argument :: arguments => .comma :: (argument.tokens ++ furtherTokens arguments)

end

mutual

/-- The tree of a phrase. A group adds nothing to it. -/
def tree : Phrase → Expr
  | .number value => .number value
  | .identifier name => .identifier name
  | .group inner => inner.tree
  | .signed sign operand => .signed sign operand.tree
  | .binary left operator right => .binary left.tree operator right.tree
  | .call function arguments => .call function.tree (trees arguments)

def trees : List Phrase → List Expr
  | [] => []
  | argument :: arguments => argument.tree :: trees arguments

end

mutual

/-- How many expressions deep reading a phrase goes, the phrase itself included. Operands of signs,
groups, operands on the right and arguments are one deeper than what holds them; operands on the
left and callees are not. -/
def depth : Phrase → Nat
  | .number _ => 1
  | .identifier _ => 1
  | .group inner => inner.depth + 1
  | .signed _ operand => operand.depth + 1
  | .binary left _ right => max left.depth (right.depth + 1)
  | .call function arguments => max function.depth (argumentDepth arguments)

def argumentDepth : List Phrase → Nat
  | [] => 0
  | argument :: arguments => max (argument.depth + 1) (argumentDepth arguments)

end

def last : Phrase → Token
  | .number value => .number value
  | .identifier name => .identifier name
  | .group _ => .rightParen
  | .signed _ operand => operand.last
  | .binary _ _ right => right.last
  | .call _ _ => .rightParen

end Phrase

inductive Nonterminal where
  | sum
  | product
  | power
  | unary
  | application
  | primary
deriving DecidableEq

/-- The rules of the grammar. Sums and products nest to the left, powers to the right. -/
inductive Derives : Nonterminal → Phrase → Prop where
  | number {value} : Derives .primary (.number value)
  | identifier {name} : Derives .primary (.identifier name)
  | group {inner} : Derives .sum inner → Derives .primary (.group inner)
  | ofPrimary {phrase} : Derives .primary phrase → Derives .application phrase
  | call {function arguments} :
      Derives .application function → (∀ argument ∈ arguments, Derives .sum argument) →
      Derives .application (.call function arguments)
  | ofApplication {phrase} : Derives .application phrase → Derives .unary phrase
  | signed {sign operand} : Derives .unary operand → Derives .unary (.signed sign operand)
  | ofUnary {phrase} : Derives .unary phrase → Derives .power phrase
  | power {left right} :
      Derives .unary left → Derives .power right → Derives .power (.binary left .pow right)
  | ofPower {phrase} : Derives .power phrase → Derives .product phrase
  | product {left operator right} :
      operator = .mul ∨ operator = .div → Derives .product left → Derives .power right →
      Derives .product (.binary left operator right)
  | ofProduct {phrase} : Derives .product phrase → Derives .sum phrase
  | sum {left operator right} :
      operator = .add ∨ operator = .sub → Derives .sum left → Derives .product right →
      Derives .sum (.binary left operator right)

def Token.beginsPhrase : Token → Bool
  | .number _ | .identifier _ | .plus | .minus | .leftParen => true
  | _ => false

/-- Phrases that spell a list of tokens one after the other. Each but the first begins with a number
or a name, as anything else would continue the phrase before it. -/
structure Splits (phrases : List Phrase) (tokens : List Token) : Prop where
  derived : ∀ phrase ∈ phrases, Derives .sum phrase
  separated : ∀ phrase ∈ phrases.tail, ∃ token rest, phrase.tokens = token :: rest ∧
    ((∃ value, token = .number value) ∨ ∃ name, token = .identifier name)
  spelled : phrases.flatMap Phrase.tokens = tokens

/-- Whether a phrase inside of `enclosing` others stays within the limit, both in depth and in the
height of its tree. -/
def Phrase.FitsWithin (enclosing : Nat) (phrase : Phrase) : Prop :=
  enclosing + phrase.depth ≤ maxNesting ∧ phrase.tree.height ≤ maxNesting

/-!
## How phrases begin and end
-/

theorem Phrase.tokens_eq_cons (phrase : Phrase) :
    ∃ token rest, phrase.tokens = token :: rest ∧ token.beginsPhrase = true := by
  cases phrase with
  | number value => exact ⟨_, _, rfl, rfl⟩
  | identifier name => exact ⟨_, _, rfl, rfl⟩
  | group inner => exact ⟨_, _, rfl, rfl⟩
  | signed sign operand => exact ⟨_, _, rfl, by cases sign <;> rfl⟩
  | binary left operator right =>
      obtain ⟨token, rest, spelled, begins⟩ := tokens_eq_cons left
      exact ⟨token, _, by rw [tokens, spelled, List.cons_append], begins⟩
  | call function arguments =>
      obtain ⟨token, rest, spelled, begins⟩ := tokens_eq_cons function
      exact ⟨token, _, by rw [tokens, spelled, List.cons_append], begins⟩

theorem Phrase.getLast?_tokens (phrase : Phrase) : phrase.tokens.getLast? = some phrase.last := by
  cases phrase with
  | number | identifier => rfl
  | group inner => simp [tokens, last, List.getLast?_cons]
  | signed sign operand => simp [tokens, last, List.getLast?_cons, getLast?_tokens operand]
  | binary left operator right =>
      simp [tokens, last, List.getLast?_append, List.getLast?_cons, getLast?_tokens right]
  | call function arguments => simp [tokens, last, List.getLast?_append, List.getLast?_cons]

theorem Phrase.exists_front (phrase : Phrase) :
    ∃ front, phrase.tokens = front ++ [phrase.last] :=
  List.getLast?_eq_some_iff.mp phrase.getLast?_tokens

/-!
## Heights of argument lists
-/

private theorem Expr.tallest_eq_max (height : Nat) (arguments : List Expr) :
    tallest height arguments = max height (tallest 0 arguments) := by
  induction arguments generalizing height with
  | nil => simp [tallest]
  | cons argument arguments ih =>
      rw [tallest, tallest, ih, ih (max 0 argument.height)]
      omega

private theorem Expr.tallest_cons (argument : Expr) (arguments : List Expr) :
    tallest 0 (argument :: arguments) = max argument.height (tallest 0 arguments) := by
  rw [tallest, tallest_eq_max]
  omega

theorem Expr.tallest_append (height : Nat) (front back : List Expr) :
    tallest height (front ++ back) = tallest (tallest height front) back := by
  induction front generalizing height with
  | nil => rfl
  | cons argument front ih => rw [List.cons_append, tallest, tallest, ih]

/-!
## What fits, part by part
-/

namespace Phrase

theorem one_le_depth (phrase : Phrase) : 1 ≤ phrase.depth := by
  cases phrase with
  | binary left operator right => exact Nat.le_trans (Nat.le_add_left 1 _) (Nat.le_max_right _ _)
  | call function arguments =>
      rw [depth]
      exact Nat.le_trans (one_le_depth function) (Nat.le_max_left _ _)
  | _ => simp [depth]

theorem fitsWithin_of_leaf {phrase : Phrase} {enclosing : Nat} (leafDepth : phrase.depth = 1)
    (leafHeight : phrase.tree.height = 1) (room : enclosing < maxNesting) :
    phrase.FitsWithin enclosing := by
  unfold FitsWithin
  unfold maxNesting at room ⊢
  omega

theorem fitsWithin_group_iff {inner : Phrase} {enclosing : Nat} :
    (group inner).FitsWithin enclosing ↔ inner.FitsWithin (enclosing + 1) := by
  unfold FitsWithin
  rw [depth, tree]
  omega

theorem fitsWithin_signed_iff {sign : Sign} {operand : Phrase} {enclosing : Nat} :
    (signed sign operand).FitsWithin enclosing ↔
      operand.FitsWithin (enclosing + 1) ∧ operand.tree.height < maxNesting := by
  unfold FitsWithin
  rw [depth, tree, Expr.height]
  omega

theorem fitsWithin_binary_iff {left right : Phrase} {operator : Operator} {enclosing : Nat} :
    (binary left operator right).FitsWithin enclosing ↔
      left.FitsWithin enclosing ∧ right.FitsWithin (enclosing + 1) ∧
        max left.tree.height right.tree.height < maxNesting := by
  unfold FitsWithin
  rw [depth, tree, Expr.height]
  omega

def ArgumentsFitWithin (enclosing : Nat) (arguments : List Phrase) : Prop :=
  ∀ argument ∈ arguments, argument.FitsWithin enclosing

theorem argumentsFitWithin_cons_iff {argument : Phrase} {arguments : List Phrase}
    {enclosing : Nat} :
    ArgumentsFitWithin enclosing (argument :: arguments) ↔
      argument.FitsWithin enclosing ∧ ArgumentsFitWithin enclosing arguments :=
  List.forall_mem_cons

private theorem argumentsFitWithin_iff {arguments : List Phrase} {enclosing : Nat}
    (room : enclosing < maxNesting) :
    ArgumentsFitWithin (enclosing + 1) arguments ↔
      enclosing + argumentDepth arguments ≤ maxNesting ∧
        Expr.tallest 0 (trees arguments) ≤ maxNesting := by
  induction arguments with
  | nil =>
      simp only [ArgumentsFitWithin, List.not_mem_nil, false_implies, implies_true, argumentDepth,
        trees, Expr.tallest, true_iff]
      omega
  | cons argument arguments ih =>
      rw [argumentsFitWithin_cons_iff, ih, FitsWithin, argumentDepth, trees, Expr.tallest_cons]
      omega

theorem fitsWithin_call_iff {function : Phrase} {arguments : List Phrase} {enclosing : Nat} :
    (call function arguments).FitsWithin enclosing ↔
      function.FitsWithin enclosing ∧ ArgumentsFitWithin (enclosing + 1) arguments ∧
        max function.tree.height (Expr.tallest 0 (trees arguments)) < maxNesting := by
  have positive := function.one_le_depth
  by_cases room : enclosing < maxNesting
  · rw [argumentsFitWithin_iff room, FitsWithin, FitsWithin, depth, tree, Expr.height]
    omega
  · unfold FitsWithin
    rw [depth]
    omega

end Phrase

end Calculator
