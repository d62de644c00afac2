/-
Module: KeywordHash.Table.Verification
Layer: Table
Purpose: Checks on a finished table: that no two keywords have one hash, and that every keyword is found.
  Three or more keywords with one hash are reported as a chain, each with the one before it.
Imports: KeywordHash.Error, KeywordHash.Table
Trusted boundary: none
Main exports: Table.collisions, Table.unreachable, Table.verify
Open obligations: none
-/
import KeywordHash.Error
import KeywordHash.Table

namespace KeywordHash.Table

/-- The collisions among the given keywords and with those before, which come with their hashes, the
    latest first. -/
def collisionsFrom (table : Table) (owners : List (Nat × String)) :
    List Keyword → Except Fault (List (String × String))
  | [] => .ok []
  | keyword :: rest => do
      let hash ← table.hash keyword.bytes
      let later ← table.collisionsFrom ((hash, keyword.text) :: owners) rest
      match owners.lookup hash with
      | some previous => return (previous, keyword.text) :: later
      | none => return later

/-- Each keyword whose hash an earlier keyword has, behind the latest such keyword. -/
def collisions (table : Table) : Except Fault (List (String × String)) :=
  table.collisionsFrom [] table.keywords

/-- The given keywords that are not found under their own text. -/
def unreachableAmong (table : Table) : List Keyword → Except Fault (List String)
  | [] => .ok []
  | keyword :: rest => do
      let found ← table.lookup keyword.text
      let later ← table.unreachableAmong rest
      if found.isSome then
        return later
      else
        return keyword.text :: later

/-- The keywords that are not found under their own text. -/
def unreachable (table : Table) : Except Fault (List String) :=
  table.unreachableAmong table.keywords

/-- Check that hashes are distinct and that every keyword is found. -/
def verify (table : Table) : Except Error Unit := do
  match ← orFault table.collisions with
  | (first, second) :: _ => throw (.invalidTable (.sharedHash first second))
  | [] =>
      match ← orFault table.unreachable with
      | keyword :: _ => throw (.invalidTable (.unreachable keyword))
      | [] => return ()

end KeywordHash.Table
