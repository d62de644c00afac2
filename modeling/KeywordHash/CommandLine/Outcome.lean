/-
Module: KeywordHash.CommandLine.Outcome
Layer: CommandLine
Purpose: What a run of a command line program leaves behind on the terminal, and how errors are told
  there: what was being done, the error, and its cause, between colons.
Imports: KeywordHash.Error
Trusted boundary: none
Main exports: Outcome, Error.chain, Outcome.ofError
Open obligations: none
-/
import KeywordHash.Error

namespace KeywordHash

/-- An error in words, followed by the cause that another layer gave for it. -/
def Error.chain (error : Error) : List String :=
  match error with
  | .file _ failure => [error.message, failure.message]
  | .document defect => [error.message, defect.message]
  | _ => [error.message]

namespace CommandLine

/-- The exit code and the texts of a run. -/
structure Outcome where
  exitCode : Nat := 0
  output : String := ""
  errors : String := ""
deriving DecidableEq, Repr

/-- A text of lines. -/
def text (lines : List String) : String :=
  String.join (lines.map (· ++ "\n"))

/-- The outcome of a run that was ended by an error. A fault has an exit code of its own. -/
def Outcome.ofError (error : Error) (words : List String) : Outcome :=
  match error with
  | .abandoned _ => { exitCode := 101, errors := text [String.intercalate ": " words] }
  | _ => { exitCode := 1, errors := text [String.intercalate ": " words] }

end CommandLine

end KeywordHash
