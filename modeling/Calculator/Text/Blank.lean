/-!
# White space

The characters with the Unicode property White_Space.
-/

set_option autoImplicit false

namespace Calculator.Text

/-- The code points of white space, as ranges from the first to the last. -/
def whiteSpace : List (Nat × Nat) :=
  [(0x0009, 0x000D), (0x0020, 0x0020), (0x0085, 0x0085), (0x00A0, 0x00A0), (0x1680, 0x1680),
    (0x2000, 0x200A), (0x2028, 0x2029), (0x202F, 0x202F), (0x205F, 0x205F), (0x3000, 0x3000)]

def isWhiteSpace (c : Char) : Bool :=
  whiteSpace.any fun (first, last) => decide (first ≤ c.toNat ∧ c.toNat ≤ last)

def isBlankLine (text : List Char) : Bool :=
  text.all isWhiteSpace

example : (whiteSpace.map fun (first, last) => last + 1 - first).sum = 25 := by decide

end Calculator.Text
