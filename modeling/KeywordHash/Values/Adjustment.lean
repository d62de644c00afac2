/-
Module: KeywordHash.Values.Adjustment
Layer: Hash
Purpose: Which characters can tell two colliding samples apart. Those are the characters in exactly one of
  the samples, and the ones that occur least are preferred because raising them moves the fewest
  keywords; the smaller code wins among equals.
Imports: KeywordHash.Values.Occurrence
Trusted boundary: none
Main exports: Occurrence.rank, Occurrence.insertByRank, Occurrence.candidates
Open obligations: none
-/
import KeywordHash.Values.Occurrence

namespace KeywordHash.Occurrence

/-- The weight of one occurrence. It exceeds every character code, so the code only decides among
    characters that occur equally often. -/
def weight : Nat := 1000

/-- The place of a character in the order of preference. -/
def rank (occurrence : Occurrence) (c : UInt8) : Nat :=
  occurrence.get c * weight + c.toNat

/-- Put a character into a list in the order of preference, unless it is there. -/
def insertByRank (occurrence : Occurrence) (c : UInt8) : List UInt8 → List UInt8
  | [] => [c]
  | d :: rest =>
      if occurrence.rank c < occurrence.rank d then
        c :: d :: rest
      else if c = d then
        d :: rest
      else
        d :: occurrence.insertByRank c rest

/-- The characters in exactly one of two samples, the preferred first. -/
def candidates (occurrence : Occurrence) (a b : List UInt8) : List UInt8 :=
  let onlyInOne := a.filter (fun c => !b.contains c) ++ b.filter (fun c => !a.contains c)
  onlyInOne.foldr occurrence.insertByRank []

end KeywordHash.Occurrence
