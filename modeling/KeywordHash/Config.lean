/-
Module: KeywordHash.Config
Layer: Data
Purpose: The settings of the generator and how variables override them. Blanks around a value do not
  matter; a number that can not be read and an empty name leave the default in place.
Imports: KeywordHash.Text.Blank, KeywordHash.Text.Numeral
Trusted boundary: none
Main exports: Variables, Config, Config.ofVariables
Open obligations: none
-/
import KeywordHash.Text.Blank
import KeywordHash.Text.Numeral

namespace KeywordHash

/-- A source of variables: the value of each name that has one. -/
abbrev Variables := String → Option String

/-- Settings of the generator. -/
structure Config where
  /-- How many assignments are attempted for one signature. -/
  maxTries : Nat := 10000
  /-- The type of the payloads in the generated program. -/
  payloadType : String := "TokenKind"
  /-- Where the table is saved as a document, if anywhere. -/
  documentPath : Option String := none
deriving DecidableEq, Repr

namespace Config

/-- The value of a variable without the blanks around it, unless nothing is left. -/
def trimmed? (environment : Variables) (name : String) : Option String :=
  match environment name with
  | none => none
  | some value =>
      match Text.trim value.toList with
      | [] => none
      | characters => some (String.ofList characters)

/-- The settings that the variables ask for. -/
def ofVariables (environment : Variables) : Config where
  maxTries :=
    ((trimmed? environment "KWTABLE_MAX_TRIES").bind (Text.numeral? ·.toList)).getD
      ({} : Config).maxTries
  payloadType := (trimmed? environment "KWTABLE_PAYLOAD_TYPE").getD ({} : Config).payloadType
  documentPath := trimmed? environment "KWTABLE_JSON"

end Config

end KeywordHash
