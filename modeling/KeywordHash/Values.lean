/-
Module: KeywordHash.Values
Layer: Hash
Purpose: The values that the ASCII characters contribute to a hash. A character that no keyword samples is
  unused, which is told by the value minus one; bytes past ASCII always read as unused.
Imports: KeywordHash.Fault, KeywordHash.Text.Bytes
Trusted boundary: none
Main exports: asciiCount, unused, AssociatedValues, AssociatedValues.get, AssociatedValues.bump,
  AssociatedValues.retire
Open obligations: none
-/
import KeywordHash.Fault
import KeywordHash.Text.Bytes

namespace KeywordHash

/-- The number of ASCII characters. -/
def asciiCount : Nat := 128

/-- The value of a character that no keyword samples. -/
def unused : Int := -1

/-- The greatest value of a character. -/
def maxValue : Int := 0x7FFFFFFF

/-- A value for each ASCII character. -/
structure AssociatedValues where
  cells : Vector Int asciiCount
deriving DecidableEq, Repr

namespace AssociatedValues

/-- Every character has the same value. -/
def constant (value : Int) : AssociatedValues where
  cells := Vector.replicate asciiCount value

/-- The values of the characters in the order of their codes. Characters without one are unused. -/
def ofList (values : List Int) : AssociatedValues where
  cells := Vector.ofFn fun c => values[c.val]?.getD unused

/-- The value of a byte. -/
def get (values : AssociatedValues) (c : UInt8) : Int :=
  values.cells[c.toNat]?.getD unused

/-- Is the character unused? -/
def isUnused (values : AssociatedValues) (c : UInt8) : Bool :=
  values.get c = unused

/-- Raise the value of a character by one. -/
def bump (values : AssociatedValues) (c : UInt8) : Except Fault AssociatedValues :=
  if h : c.toNat < asciiCount then
    if values.cells[c.toNat] < maxValue then
      .ok { cells := values.cells.set c.toNat (values.cells[c.toNat] + 1) }
    else
      .error (.valueOverflow c)
  else
    .error (.notAscii c)

/-- Make every character unused that is not kept. -/
def retire (values : AssociatedValues) (kept : UInt8 → Bool) : AssociatedValues where
  cells := values.cells.mapFinIdx fun c value _ => if kept (UInt8.ofNat c) then value else unused

end AssociatedValues

end KeywordHash
