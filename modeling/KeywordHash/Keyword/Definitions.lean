/-
Module: KeywordHash.Keyword.Definitions
Layer: Keyword
Purpose: Keyword definitions as text. A line holds one record: a key of letters, digits and underscores,
  a separator of spaces and tabs, and a payload that begins and ends with a character that is not
  blank. Blanks before and after the record do not matter. Blank lines and lines that begin with a
  number sign are ignored; any other line is malformed and is set aside with its number. A key that was
  defined before is an error.
Imports: KeywordHash.Error, KeywordHash.Keyword, KeywordHash.Text.Blank, KeywordHash.Text.Line
Trusted boundary: none
Main exports: Line, Line.classify, Definitions, Definitions.parse
Open obligations: none
-/
import KeywordHash.Error
import KeywordHash.Keyword
import KeywordHash.Text.Blank
import KeywordHash.Text.Line

namespace KeywordHash

/-- Does the character occur in keys? Keys are ASCII. -/
def isKeyCharacter (c : Char) : Bool :=
  c.isAlphanum || c = '_'

/-- Does the character separate a key from its payload? -/
def isSeparator (c : Char) : Bool :=
  c = ' ' || c = '\t'

/-- What a line of definitions says. -/
inductive Line where
  | ignored
  | record (key payload : List Char)
  | malformed
deriving DecidableEq, Repr

namespace Line

/-- Read a record from a line that does not begin with a blank. Key and separator are as long as they
    can be, so the payload begins with a character that is no separator; it must not be another blank
    either. -/
def record? (body : List Char) : Option (List Char × List Char) :=
  let key := body.takeWhile isKeyCharacter
  let afterKey := body.dropWhile isKeyCharacter
  let afterSeparator := afterKey.dropWhile isSeparator
  match key, afterKey, afterSeparator with
  | _ :: _, s :: _, c :: _ =>
      if isSeparator s && !Text.isBlank c then
        some (key, Text.trimEnd afterSeparator)
      else
        none
  | _, _, _ => none

/-- What a line says. -/
def classify (raw : List Char) : Line :=
  match Text.trimStart raw with
  | [] => .ignored
  | '#' :: _ => .ignored
  | body =>
      match record? body with
      | some (key, payload) => .record key payload
      | none => .malformed

end Line

/-- A line that is neither ignored nor a record, as it was written. -/
structure MalformedLine where
  line : Nat
  text : String
deriving DecidableEq, Repr

/-- The contents of a text of definitions, both lists in the order of their lines. -/
structure Definitions where
  keywords : List Keyword := []
  skipped : List MalformedLine := []
deriving DecidableEq, Repr

namespace Definitions

/-- Take in one more line. -/
def addLine (definitions : Definitions) (raw : List Char) (number : Nat) :
    Except Error Definitions :=
  match Line.classify raw with
  | .ignored => .ok definitions
  | .malformed =>
      let line : MalformedLine := { line := number, text := String.ofList raw }
      .ok { definitions with skipped := definitions.skipped ++ [line] }
  | .record key payload =>
      let keyword : Keyword :=
        { text := String.ofList key, payload := String.ofList payload, line := number }
      match Keyword.find? definitions.keywords keyword.text with
      | some first => .error (.duplicateKeyword keyword.text number first.line)
      | none => .ok { definitions with keywords := definitions.keywords ++ [keyword] }

/-- Read a text of definitions, line by line. -/
def parse (text : String) : Except Error Definitions :=
  (Text.numberedLines text.toList).foldlM
    (fun definitions (raw, number) => definitions.addLine raw number) {}

end Definitions

end KeywordHash
