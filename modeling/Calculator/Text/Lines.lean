/-!
# Lines

A line reaches up to and including the symbol that ends it, and the last one may lack it. Nothing
stands between the lines.
-/

set_option autoImplicit false

namespace Calculator.Text

variable {α : Type}

/-- The lines of what is left, behind those read so far and the one that has begun, both in
reverse. -/
def linesFrom (ends : α → Bool) (read : List (List α)) (begun : List α) : List α → List (List α)
  | [] => if begun.isEmpty then read.reverse else (begun.reverse :: read).reverse
  | symbol :: rest =>
      if ends symbol then
        linesFrom ends ((symbol :: begun).reverse :: read) [] rest
      else
        linesFrom ends read (symbol :: begun) rest

/-- Cuts a sequence behind every symbol that ends a line. -/
def lines (ends : α → Bool) (symbols : List α) : List (List α) :=
  linesFrom ends [] [] symbols

/-- The sequence without all symbols of one kind at its end. -/
def trimRight (drops : α → Bool) (symbols : List α) : List α :=
  (symbols.reverse.dropWhile drops).reverse

end Calculator.Text
