/-
Module: KeywordHash.Values.Hashing
Layer: Hash
Purpose: The hashes of a keyword set under given values. Keywords are hashed in order until one has the
  hash of an earlier one. A hash below zero is a fault.
Imports: KeywordHash.Values.Occurrence
Trusted boundary: none
Main exports: HashTable, Hashing, hashAll
Open obligations: none
-/
import KeywordHash.Values.Occurrence

namespace KeywordHash

/-- Hashes with the indices of the keywords that own them, the latest first. No hash occurs twice. -/
structure HashTable where
  entries : List (Nat × Nat) := []
deriving DecidableEq, Repr

namespace HashTable

/-- The keyword that owns the hash. -/
def owner? (table : HashTable) (hash : Nat) : Option Nat :=
  table.entries.lookup hash

/-- Give a hash to a keyword. -/
def insert (table : HashTable) (hash keyword : Nat) : HashTable where
  entries := (hash, keyword) :: table.entries

/-- The greatest hash, or zero if there is none. -/
def maxHash (table : HashTable) : Nat :=
  table.entries.foldr (fun entry greatest => max entry.1 greatest) 0

end HashTable

/-- The outcome of hashing a keyword set. -/
inductive Hashing where
  | distinct (table : HashTable)
  /-- The keyword has the hash that the owner, an earlier one, already holds. -/
  | collision (keyword owner : Nat)
deriving DecidableEq, Repr

/-- Hash the samples of the keywords from the given index on into a table that holds those before. -/
def hashFrom (values : AssociatedValues) (index : Nat) (table : HashTable) :
    List Sample → Except Fault Hashing
  | [] => .ok (.distinct table)
  | sample :: rest =>
      match sample.hash values with
      | .negSucc _ => .error (.negativeHash index)
      | .ofNat hash =>
          match table.owner? hash with
          | some owner => .ok (.collision index owner)
          | none => hashFrom values (index + 1) (table.insert hash index) rest

/-- Hash the samples of all keywords. -/
def hashAll (values : AssociatedValues) (samples : List Sample) : Except Fault Hashing :=
  hashFrom values 0 {} samples

end KeywordHash
