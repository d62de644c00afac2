/-
Module: KeywordHash.Signature
Layer: Signature
Purpose: Signatures, the strictly increasing offsets at which every word is sampled. An offset past the
  end of a word samples nothing, so the samples of short words are short.
Imports: none
Trusted boundary: none
Main exports: Signature, Signature.ofOffsets?, Signature.sampledOffsets, Signature.realize,
  Signature.describe
Open obligations: none
-/

namespace KeywordHash

/-- A non-empty list of strictly increasing offsets. -/
structure Signature where
  offsets : List Nat
  ne_nil : offsets ≠ []
  increasing : offsets.Pairwise (· < ·)
deriving DecidableEq, Repr

namespace Signature

/-- The signature with the given offsets, if they are those of one. -/
def ofOffsets? (offsets : List Nat) : Option Signature :=
  if h : offsets ≠ [] ∧ offsets.Pairwise (· < ·) then
    some { offsets := offsets, ne_nil := h.1, increasing := h.2 }
  else
    none

/-- The number of offsets. -/
def size (signature : Signature) : Nat :=
  signature.offsets.length

/-- The offsets that exist in a word of the given length. -/
def sampledOffsets (signature : Signature) (length : Nat) : List Nat :=
  signature.offsets.filter (· < length)

/-- The bytes that the word has at the offsets, in their order. -/
def realize (signature : Signature) (word : List UInt8) : List UInt8 :=
  signature.offsets.filterMap (word[·]?)

/-- The offsets in brackets. -/
def describe (signature : Signature) : String :=
  "[" ++ String.intercalate ", " (signature.offsets.map Nat.repr) ++ "]"

end Signature

end KeywordHash
