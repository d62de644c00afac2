/-
Module: KeywordHash.Error
Layer: Data
Purpose: Errors by cause, with their wording in one place. An error is the answer to a keyword set, a
  table, a document or a file that can not be used; a fault that ends a larger operation is passed on
  as an error too.
Imports: KeywordHash.Fault, KeywordHash.Json.Defect, KeywordHash.Text.Quoted
Trusted boundary: none
Main exports: KeywordFlaw, Inconsistency, FileFailure, Error, Error.message, orFault
Open obligations: none
-/
import KeywordHash.Fault
import KeywordHash.Json.Defect
import KeywordHash.Text.Quoted

namespace KeywordHash

/-- What makes a single keyword unusable. -/
inductive KeywordFlaw where
  | empty
  | notAscii
deriving DecidableEq, Repr

/-- A flaw in words. -/
def KeywordFlaw.message : KeywordFlaw → String
  | .empty => "empty keyword"
  | .notAscii => "keyword is not ASCII"

/-- How the parts of a table contradict each other. -/
inductive Inconsistency where
  /-- The signature is empty, or its offsets do not increase. -/
  | offsets
  /-- A slot holds an index past the keyword list. -/
  | slotIndex (index keywords : Nat)
  /-- A keyword does not stand in exactly one slot. -/
  | slotCount (keyword : String) (slots : Nat)
  /-- A value is neither unused nor a possible hash. -/
  | valueRange (value : Int) (character : Char) (maxHash : Nat)
  /-- Two keywords have one hash. -/
  | sharedHash (first second : String)
  /-- A keyword is not found. -/
  | unreachable (keyword : String)
deriving DecidableEq, Repr

/-- An inconsistency in words. -/
def Inconsistency.message : Inconsistency → String
  | .offsets => "signature offsets must be strictly increasing"
  | .slotIndex index keywords => s!"slot points at keyword #{index}, table has {keywords}"
  | .slotCount keyword slots => s!"keyword `{keyword}` occupies {slots} slots"
  | .valueRange value character maxHash =>
      s!"associated value {value} for {Text.quotedCharacter character} outside -1..={maxHash}"
  | .sharedHash first second => s!"`{first}` and `{second}` share a hash"
  | .unreachable keyword => s!"`{keyword}` does not look up to itself"

/-- Why a file operation failed. -/
inductive FileFailure where
  | notFound
  | notUtf8
  | isDirectory
  | notDirectory
  | alreadyExists
  /-- A directory that is in use was to be replaced. -/
  | busy
  /-- The path, or a name in it, is longer than it may be. -/
  | nameTooLong
  /-- The path holds the null character. -/
  | nullInPath
  /-- A failure of another kind, in the words of the system. -/
  | other (description : String)
deriving DecidableEq, Repr

/-- A file failure in the words of the system. -/
def FileFailure.message : FileFailure → String
  | .notFound => "No such file or directory (os error 2)"
  | .notUtf8 => "stream did not contain valid UTF-8"
  | .isDirectory => "Is a directory (os error 21)"
  | .notDirectory => "Not a directory (os error 20)"
  | .alreadyExists => "File exists (os error 17)"
  | .busy => "Device or resource busy (os error 16)"
  | .nameTooLong => "File name too long (os error 36)"
  | .nullInPath => "file name contained an unexpected NUL byte"
  | .other description => description

/-- Why no table, text or file came out of an operation. -/
inductive Error where
  | file (path : String) (failure : FileFailure)
  | duplicateKeyword (keyword : String) (line firstLine : Nat)
  | invalidKeyword (keyword : String) (flaw : KeywordFlaw)
  | emptyKeywordSet
  /-- Every candidate signature was tried without success. -/
  | gaveUp (signaturesTried : Nat)
  | invalidTable (inconsistency : Inconsistency)
  | document (defect : Json.Defect)
  | abandoned (fault : Fault)
deriving DecidableEq, Repr

/-- An error in words. -/
def Error.message : Error → String
  | .file path failure => s!"i/o error on {path}: {failure.message}"
  | .duplicateKeyword keyword line firstLine =>
      s!"duplicate keyword `{keyword}` at line {line} (first defined at line {firstLine})"
  | .invalidKeyword keyword flaw => s!"invalid keyword `{keyword}`: {flaw.message}"
  | .emptyKeywordSet => "keyword set is empty; nothing to generate"
  | .gaveUp signaturesTried =>
      s!"hash generation failed: gave up after {signaturesTried} signature candidates"
  | .invalidTable inconsistency => s!"inconsistent keyword table: {inconsistency.message}"
  | .document defect => s!"keyword table JSON: {defect.message}"
  | .abandoned fault => fault.message

/-- The result of a step that may fault, inside an operation that may fail. -/
def orFault {α : Type} : Except Fault α → Except Error α
  | .ok a => .ok a
  | .error fault => .error (.abandoned fault)

end KeywordHash
