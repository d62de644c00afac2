/-
Module: KeywordHash.Signature.Enumeration
Layer: Signature
Purpose: The candidate signatures one after the other, each made when it is asked for. The enumeration
  starts at the first character, never repeats a candidate, and once it has come to its end it stays
  there.
Imports: KeywordHash.Signature.Successor
Trusted boundary: none
Main exports: Enumeration, Enumeration.start, Enumeration.next?, Enumeration.take
Open obligations: none
-/
import KeywordHash.Signature.Successor

namespace KeywordHash

/-- The candidates that have not been asked for yet, told by the first of them. -/
structure Enumeration where
  bounds : Bounds
  upcoming : Option (Candidate bounds)

namespace Enumeration

/-- All candidates within the bounds. -/
def start (bounds : Bounds) : Enumeration where
  bounds := bounds
  upcoming := some (Candidate.first bounds)

/-- The next signature and the candidates after it. -/
def next? (enumeration : Enumeration) : Option (Signature × Enumeration) :=
  match enumeration.upcoming with
  | none => none
  | some candidate => some (candidate.signature, { enumeration with upcoming := candidate.next? })

/-- Is there another candidate? -/
def hasNext (enumeration : Enumeration) : Bool :=
  enumeration.upcoming.isSome

/-- The next signatures, at most as many as asked for, behind those that were taken before, the latest of
    which comes first. The candidates after them are returned as well. -/
def takeAfter (taken : List Signature) : Nat → Enumeration → List Signature × Enumeration
  | 0, enumeration => (taken.reverse, enumeration)
  | count + 1, enumeration =>
      match enumeration.next? with
      | none => (taken.reverse, enumeration)
      | some (signature, following) => takeAfter (signature :: taken) count following

/-- The next signatures, at most as many as asked for, and the candidates after them. -/
def take (enumeration : Enumeration) (count : Nat) : List Signature × Enumeration :=
  takeAfter [] count enumeration

/-- A bound on the number of signatures still to come. -/
def remaining (enumeration : Enumeration) : Nat :=
  match enumeration.upcoming with
  | none => 0
  | some candidate => candidate.remaining + 1

/-- Fewer signatures are to come after each one. -/
theorem remaining_next_lt {enumeration following : Enumeration} {signature : Signature}
    (h : enumeration.next? = some (signature, following)) :
    following.remaining < enumeration.remaining := by
  rw [next?] at h
  split at h
  · cases h
  · next candidate hUpcoming =>
      cases h
      simp only [remaining, hUpcoming]
      split
      · omega
      · next followingCandidate hNext =>
          have := Candidate.remaining_next_lt hNext
          omega

end Enumeration

end KeywordHash
