/-
Module: KeywordHash.CommandLine.Sample
Layer: CommandLine
Purpose: The program that builds a table for the bundled keywords and looks up some words in it.
Imports: KeywordHash.CommandLine.Outcome, KeywordHash.Config, KeywordHash.Keyword.Bundled,
  KeywordHash.Keyword.Definitions, KeywordHash.Table.Build
Trusted boundary: none
Main exports: CommandLine.sample
Open obligations: none
-/
import KeywordHash.CommandLine.Outcome
import KeywordHash.Config
import KeywordHash.Keyword.Bundled
import KeywordHash.Keyword.Definitions
import KeywordHash.Table.Build

namespace KeywordHash.CommandLine

/-- The words that are looked up. -/
def sampleWords : List String :=
  ["while", "whilst", "doFirst", "dofirst", "in", "is", "x", "operator"]

/-- As many blanks as a text lacks of the given width. -/
def padding (width : Nat) (text : String) : String :=
  String.ofList (List.replicate (width - text.length) ' ')

/-- The line about a word: its hash, and its payload if it is a keyword. -/
def sampleLine (table : Table) (word : String) : Except Fault String := do
  let hash := Nat.repr (← table.hash (Text.bytes word))
  let meaning := (← table.payload word).getD "<identifier>"
  return padding 10 word ++ word ++ "  hash=" ++ hash ++ padding 4 hash ++ " " ++ meaning

/-- The lines about a table for the definitions. -/
def sampleLines (definitions : String) (config : Config) : Except Error (List String) := do
  let keywords := (← Definitions.parse definitions).keywords
  let table ← Table.build keywords config.maxTries
  let title := s!"TABLE: {table.keywords.length} keywords, signature {table.signature.describe}, "
    ++ s!"max hash {table.maxHash}"
  let lines ← orFault (sampleWords.mapM (sampleLine table))
  return title :: lines

/-- Run the program. -/
def sample (environment : Variables) : Outcome :=
  match sampleLines bundledDefinitions (Config.ofVariables environment) with
  | .ok lines => { output := text lines }
  | .error error => .ofError error ["table error", error.message]

end KeywordHash.CommandLine
