/-
Module: KeywordHash.Search
Layer: Search
Purpose: The walk through the candidate signatures of a valid keyword set. Every step takes the next
  signature and searches for values under it; after the last signature all steps give up and change
  nothing. A run takes steps until one succeeds or gives up, and ends because each step leaves fewer
  candidates (`remaining_step_lt`).
Imports: KeywordHash.Assignment, KeywordHash.Keyword.Validity, KeywordHash.Signature.Enumeration
Trusted boundary: none
Main exports: Search, Search.start, Step, Search.step, Found, Search.run
Open obligations: none
-/
import KeywordHash.Assignment
import KeywordHash.Keyword.Validity
import KeywordHash.Signature.Enumeration

namespace KeywordHash

namespace Keyword

/-- The length of the shortest keyword. -/
def shortest (keywords : List Keyword) : Nat :=
  (keywords.map length).min?.getD 0

/-- The length of the longest keyword. -/
def longest (keywords : List Keyword) : Nat :=
  (keywords.map length).max?.getD 0

end Keyword

/-- A keyword set and the signatures that were not tried on it yet. -/
structure Search where
  keywords : List Keyword
  enumeration : Enumeration
  /-- How many assignments are attempted for one signature. -/
  maxTries : Nat
  /-- How many signatures were tried. -/
  tried : Nat := 0

/-- What one step of a search did. -/
inductive Step where
  /-- The signature was tried. -/
  | attempt (signature : Signature) (assignment : Assignment)
  /-- There was no signature left to try. -/
  | giveUp
deriving DecidableEq, Repr

/-- What a successful search found. -/
structure Found where
  signature : Signature
  values : AssociatedValues
  table : HashTable
  adjustments : Nat
  signaturesTried : Nat
deriving DecidableEq, Repr

namespace Search

/-- Begin a search for keywords that can be given a hash. -/
def start (keywords : List Keyword) (maxTries : Nat) : Except Error Search := do
  Keyword.validate keywords
  let bounds ← orFault (Bounds.ofLengths (Keyword.shortest keywords) (Keyword.longest keywords))
  return { keywords := keywords, enumeration := Enumeration.start bounds, maxTries := maxTries }

/-- Try the next signature. The search goes on behind it, also when the attempt faults. -/
def step (search : Search) : Except Fault Step × Search :=
  match search.enumeration.next? with
  | none => (.ok .giveUp, search)
  | some (signature, following) =>
      ((assign search.keywords signature search.maxTries).map (Step.attempt signature),
        { search with enumeration := following, tried := search.tried + 1 })

/-- An attempt leaves fewer signatures to try. -/
theorem remaining_step_lt {search after : Search} {signature : Signature}
    {assignment : Assignment} (h : search.step = (.ok (.attempt signature assignment), after)) :
    after.enumeration.remaining < search.enumeration.remaining := by
  rw [step] at h
  split at h
  · cases h
  · next hNext =>
      injection h with _ hAfter
      subst hAfter
      exact Enumeration.remaining_next_lt hNext

/-- Take steps until values are found or all signatures were tried. -/
def run (search : Search) : Except Error Found :=
  match _ : search.step with
  | (.error fault, _) => .error (.abandoned fault)
  | (.ok .giveUp, after) => .error (.gaveUp after.tried)
  | (.ok (.attempt signature (.success values table adjustments)), after) =>
      .ok
        { signature := signature, values := values, table := table, adjustments := adjustments
          signaturesTried := after.tried }
  | (.ok (.attempt _ (.unresolvable _ _)), after) => after.run
  | (.ok (.attempt _ (.triesExhausted _)), after) => after.run
termination_by search.enumeration.remaining
decreasing_by all_goals exact remaining_step_lt ‹search.step = _›

end Search

end KeywordHash
