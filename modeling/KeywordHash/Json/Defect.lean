/-
Module: KeywordHash.Json.Defect
Layer: Json
Purpose: The ways in which a JSON document can fail to be read.
Imports: none
Trusted boundary: none
Main exports: Defect, Defect.message
Open obligations: none
-/

namespace KeywordHash.Json

/-- Why a document was not read. The first defect met from left to right counts. -/
inductive Defect where
  /-- The text ends inside the document. -/
  | truncated
  /-- The text is not JSON. -/
  | malformed
  /-- The text is JSON so far, but not of the wanted shape. -/
  | mismatched
deriving DecidableEq, Repr

/-- A defect in words. -/
def Defect.message : Defect → String
  | .truncated => "unexpected end of document"
  | .malformed => "not a JSON document"
  | .mismatched => "document of another shape"

end KeywordHash.Json
