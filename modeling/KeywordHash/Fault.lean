/-
Module: KeywordHash.Fault
Layer: Data
Purpose: Faults, the conditions under which a computation is abandoned because its caller broke a
  promise or a machine number does not fit. A fault is no verdict on the keywords; verdicts are errors.
Imports: none
Trusted boundary: none
Main exports: Fault, Fault.message
Open obligations: none
-/

namespace KeywordHash

/-- Why a computation was abandoned. -/
inductive Fault where
  /-- Signatures were asked for lengths that no keyword set has. -/
  | lengthRange (shortest longest : Nat)
  /-- A byte past ASCII stands where a character is counted or given a value. -/
  | notAscii (byte : UInt8)
  /-- A character was counted more often than a counter can tell. -/
  | countOverflow (character : UInt8)
  /-- The value of a character can not be raised any further. -/
  | valueOverflow (character : UInt8)
  /-- A keyword hashes below zero. -/
  | negativeHash (keyword : Nat)
  /-- The hash of a word is no machine word. -/
  | hashOverflow
  /-- A slot holds an index past the keyword list. -/
  | slotIndex (index : Nat)
  /-- Longer words than the longest keyword have no machine word for their length. -/
  | lengthOverflow (length : Nat)
  /-- The offset after this one is no machine word. -/
  | offsetOverflow (offset : Nat)
  /-- A choice was to be made among no alternatives. -/
  | emptyChoice
deriving DecidableEq, Repr

/-- A fault in words. -/
def Fault.message : Fault → String
  | .lengthRange shortest longest => s!"invalid keyword length range {shortest}..={longest}"
  | .notAscii byte => s!"byte {byte.toNat} is not ASCII"
  | .countOverflow character => s!"too many occurrences of character {character.toNat}"
  | .valueOverflow character => s!"value of character {character.toNat} is too large"
  | .negativeHash keyword => s!"negative hash for keyword #{keyword}"
  | .hashOverflow => "hash is too large"
  | .slotIndex index => s!"no keyword #{index}"
  | .lengthOverflow length => s!"length {length} is too large"
  | .offsetOverflow offset => s!"offset {offset} is too large"
  | .emptyChoice => "nothing to choose from"

end KeywordHash
