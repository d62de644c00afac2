/-
Module: KeywordHash.Keyword.Validity
Layer: Keyword
Purpose: Which keyword lists can be given a hash. The list has to have a keyword, every text has to be
  non-empty ASCII, and no text may occur twice. Of several shortcomings the one named first in this
  sentence is reported, and within one kind the first in the list.
Imports: KeywordHash.Error, KeywordHash.Keyword
Trusted boundary: none
Main exports: Keyword.flaw?, Keyword.checkUnique, Keyword.validate
Open obligations: none
-/
import KeywordHash.Error
import KeywordHash.Keyword

namespace KeywordHash.Keyword

/-- What makes the keyword unusable on its own. -/
def flaw? (keyword : Keyword) : Option KeywordFlaw :=
  if keyword.text.isEmpty then
    some .empty
  else if !keyword.isAscii then
    some .notAscii
  else
    none

/-- The line to report for the keyword at the given index: its own, or its place in the list if it was
    not read from a text. -/
def reportedLine (keyword : Keyword) (index : Nat) : Nat :=
  if keyword.line = 0 then index + 1 else keyword.line

/-- Check the keywords from the given index on against each other and against those seen before, which
    come with their reported lines. -/
def checkUniqueFrom (index : Nat) (seen : List (String × Nat)) : List Keyword → Except Error Unit
  | [] => .ok ()
  | keyword :: rest =>
      let line := keyword.reportedLine index
      match seen.lookup keyword.text with
      | some firstLine => .error (.duplicateKeyword keyword.text line firstLine)
      | none => checkUniqueFrom (index + 1) ((keyword.text, line) :: seen) rest

/-- Check that no text occurs twice. -/
def checkUnique (keywords : List Keyword) : Except Error Unit :=
  checkUniqueFrom 0 [] keywords

/-- The first keyword that is unusable on its own, with its flaw. -/
def firstFlaw? : List Keyword → Option (Keyword × KeywordFlaw)
  | [] => none
  | keyword :: rest =>
      match keyword.flaw? with
      | some flaw => some (keyword, flaw)
      | none => firstFlaw? rest

/-- Check that the keywords can be given a hash. -/
def validate (keywords : List Keyword) : Except Error Unit :=
  if keywords.isEmpty then
    .error .emptyKeywordSet
  else
    match firstFlaw? keywords with
    | some (keyword, flaw) => .error (.invalidKeyword keyword.text flaw)
    | none => checkUnique keywords

end KeywordHash.Keyword
