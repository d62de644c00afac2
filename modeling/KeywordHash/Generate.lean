/-
Module: KeywordHash.Generate
Layer: Program
Purpose: From a file of keyword definitions to a file with the look-up program, and to a document with the
  table if one is asked for. Nothing is written before the table is built and verified, and the program
  is written before the document.
Imports: KeywordHash.Config, KeywordHash.Host, KeywordHash.Keyword.Definitions,
  KeywordHash.Program.Source, KeywordHash.Table.Build, KeywordHash.Table.Document,
  KeywordHash.Table.Verification
Trusted boundary: none
Main exports: readDefinitions, loadTable, saveTable, sourceNames, generate
Open obligations: none
-/
import KeywordHash.Config
import KeywordHash.Host
import KeywordHash.Keyword.Definitions
import KeywordHash.Program.Source
import KeywordHash.Table.Build
import KeywordHash.Table.Document
import KeywordHash.Table.Verification

namespace KeywordHash

variable {m : Type → Type} [Monad m] [Host m]

/-- The keyword definitions in the file at a path. -/
def readDefinitions (path : String) : ExceptT Error m Definitions := do
  Definitions.parse (← readText path)

/-- The table whose document is at a path. -/
def loadTable (path : String) : ExceptT Error m Table := do
  Table.load (← readBytes path)

/-- Put the document of a table at a path. -/
def saveTable (path : String) (table : Table) : ExceptT Error m Unit :=
  replaceText path table.documentText

/-- The names in the program of the definitions at a path. The file is named without its directories. -/
def sourceNames (config : Config) (input : String) : SourceNames where
  payloadType := config.payloadType
  definitions := (Path.fileName? input).getD input

/-- Generate the program for the definitions at one path and put it at another. -/
def generate (input output : String) (config : Config) : ExceptT Error m Table := do
  let definitions ← readDefinitions input
  let table ← Table.build definitions.keywords config.maxTries
  table.verify
  let source ← orFault (table.source (sourceNames config input))
  replaceText output source
  match config.documentPath with
  | some path => saveTable path table
  | none => pure ()
  return table

end KeywordHash
