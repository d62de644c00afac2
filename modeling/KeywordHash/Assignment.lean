/-
Module: KeywordHash.Assignment
Layer: Search
Purpose: The search for values under one signature. All values start at zero; as long as two keywords
  collide, the preferred character that tells their samples apart is raised by one. The attempt fails
  when no character can tell them apart, or when the tries are used up.
Imports: KeywordHash.Keyword, KeywordHash.Values.Adjustment, KeywordHash.Values.Hashing
Trusted boundary: none
Main exports: Assignment, Signature.samples, assign
Open obligations: none
-/
import KeywordHash.Keyword
import KeywordHash.Values.Adjustment
import KeywordHash.Values.Hashing

namespace KeywordHash

/-- The outcome of an attempt to find values under one signature. -/
inductive Assignment where
  /-- All hashes differ. Characters that no keyword samples are unused. -/
  | success (values : AssociatedValues) (table : HashTable) (adjustments : Nat)
  /-- The two keywords collide under all values. -/
  | unresolvable (keyword other : Nat)
  | triesExhausted (tries : Nat)
deriving DecidableEq, Repr

/-- The samples that the signature takes of the keywords. -/
def Signature.samples (signature : Signature) (keywords : List Keyword) : List Sample :=
  keywords.map fun keyword => signature.sample keyword.bytes

/-- The sampled characters of the keyword with the given index. -/
def charactersAt (samples : List Sample) (index : Nat) : List UInt8 :=
  (samples[index]?.map (·.characters)).getD []

/-- Try the values, and on a collision raise one of them and go on with one try less. -/
def assignFrom (samples : List Sample) (occurrence : Occurrence) (maxTries : Nat) :
    Nat → AssociatedValues → Nat → Except Fault Assignment
  | 0, _, _ => .ok (.triesExhausted maxTries)
  | tries + 1, values, adjustments =>
      match hashAll values samples with
      | .error fault => .error fault
      | .ok (.distinct table) =>
          .ok (.success (values.retire occurrence.isSampled) table adjustments)
      | .ok (.collision keyword owner) =>
          match occurrence.candidates (charactersAt samples keyword) (charactersAt samples owner) with
          | [] => .ok (.unresolvable keyword owner)
          | target :: _ =>
              match values.bump target with
              | .error fault => .error fault
              | .ok bumped => assignFrom samples occurrence maxTries tries bumped (adjustments + 1)

/-- Search for values under which the keywords have distinct hashes, with at most `maxTries` tries. -/
def assign (keywords : List Keyword) (signature : Signature) (maxTries : Nat) :
    Except Fault Assignment :=
  let samples := signature.samples keywords
  match Occurrence.ofSamples samples with
  | .error fault => .error fault
  | .ok occurrence => assignFrom samples occurrence maxTries maxTries (.constant 0) 0

end KeywordHash
