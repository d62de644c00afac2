/-
Module: KeywordHash.Signature.Bounds
Layer: Signature
Purpose: Which signatures are candidates for keywords of given lengths. The first offset has to exist in
  the shortest keyword and every offset in the longest, and there is a limit on their number: one more
  than the lengths differ by, and two for keywords of one length, unless that length is one.
Imports: KeywordHash.Fault, KeywordHash.Signature
Trusted boundary: none
Main exports: Bounds, Bounds.ofLengths, Bounds.maxSize, Bounds.Admits, Candidate
Open obligations: none
-/
import KeywordHash.Fault
import KeywordHash.Signature

namespace KeywordHash

/-- The lengths of the shortest and the longest keyword. -/
structure Bounds where
  shortest : Nat
  longest : Nat
  shortest_pos : 0 < shortest
  shortest_le : shortest ≤ longest
deriving DecidableEq, Repr

namespace Bounds

/-- The bounds with the given lengths. No keyword is empty, so neither length is zero. -/
def ofLengths (shortest longest : Nat) : Except Fault Bounds :=
  if h : 0 < shortest ∧ shortest ≤ longest then
    .ok { shortest := shortest, longest := longest, shortest_pos := h.1, shortest_le := h.2 }
  else
    .error (.lengthRange shortest longest)

/-- The greatest number of offsets of a candidate. -/
def maxSize (bounds : Bounds) : Nat :=
  max (bounds.longest - bounds.shortest + 1) (min bounds.longest 2)

/-- A candidate has no more offsets than the longest keyword has characters. -/
theorem maxSize_le_longest (bounds : Bounds) : bounds.maxSize ≤ bounds.longest := by
  have := bounds.shortest_pos
  have := bounds.shortest_le
  simp only [maxSize]
  omega

/-- The offset lists of the candidates. -/
structure Admits (bounds : Bounds) (offsets : List Nat) : Prop where
  ne_nil : offsets ≠ []
  increasing : offsets.Pairwise (· < ·)
  head_lt : ∀ o ∈ offsets.head?, o < bounds.shortest
  all_lt : ∀ o ∈ offsets, o < bounds.longest
  length_le : offsets.length ≤ bounds.maxSize

end Bounds

/-- A signature that is a candidate within the bounds. -/
structure Candidate (bounds : Bounds) where
  signature : Signature
  admitted : bounds.Admits signature.offsets

end KeywordHash
