/-
Module: KeywordHash.Text.CodeRange
Layer: Text
Purpose: Inclusive ranges of code points, the form in which the character properties of this library
  are written down.
Imports: none
Trusted boundary: none
Main exports: CodeRange, CodeRange.contains, CodeRange.cover
Open obligations: none
-/

namespace KeywordHash.Text

/-- An inclusive range of code points. -/
structure CodeRange where
  first : Nat
  last : Nat
deriving DecidableEq, Repr

namespace CodeRange

/-- Does the range hold the character? -/
def contains (range : CodeRange) (c : Char) : Bool :=
  range.first ≤ c.toNat && c.toNat ≤ range.last

/-- Does one of the ranges hold the character? -/
def cover (ranges : List CodeRange) (c : Char) : Bool :=
  ranges.any (·.contains c)

end CodeRange

end KeywordHash.Text
