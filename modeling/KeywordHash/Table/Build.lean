/-
Module: KeywordHash.Table.Build
Layer: Table
Purpose: The table of a keyword set, made from the first signature under which a search finds values. Its
  last slot is that of the greatest keyword hash.
Imports: KeywordHash.Search, KeywordHash.Table
Trusted boundary: none
Main exports: Table.ofFound, Table.build
Open obligations: none
-/
import KeywordHash.Search
import KeywordHash.Table

namespace KeywordHash.Table

/-- The table that a successful search amounts to. -/
def ofFound (keywords : List Keyword) (found : Found) : Table where
  keywords := keywords
  signature := found.signature
  values := found.values
  slots := ((List.range (found.table.maxHash + 1)).map found.table.owner?).toArray
  minWordLength := Keyword.shortest keywords
  maxWordLength := Keyword.longest keywords
  stats := { signaturesTried := found.signaturesTried, adjustments := found.adjustments }

/-- Build a table for a keyword set, with at most `maxTries` tries for each signature. -/
def build (keywords : List Keyword) (maxTries : Nat) : Except Error Table := do
  let search ← Search.start keywords maxTries
  let found ← search.run
  return ofFound keywords found

end KeywordHash.Table
