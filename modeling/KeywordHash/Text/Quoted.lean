/-
Module: KeywordHash.Text.Quoted
Layer: Text
Purpose: Quoted text, the form in which keywords stand in a generated program and characters stand in
  messages. The delimiter and the backslash are written behind a backslash, as are the line feed, the
  carriage return, the tab and the null character by a letter or digit; other unprintable characters
  are written by their code point in lower-case hexadecimal without padding. All else stands for
  itself. Which characters are unprintable changes from one version of the Unicode standard to the
  next, so it is a parameter.
Imports: KeywordHash.Text.Unprintable
Trusted boundary: none
Main exports: escapedBy, escaped, quotedBy, quoted, quotedCharacter
Open obligations: none
-/
import KeywordHash.Text.Unprintable

namespace KeywordHash.Text

/-- A character as it is written between two delimiters, for a choice of unprintable characters. -/
def escapedBy (unprintable : Char → Bool) (delimiter c : Char) : List Char :=
  if c = delimiter || c = '\\' then
    ['\\', c]
  else if c = '\n' then
    ['\\', 'n']
  else if c = '\r' then
    ['\\', 'r']
  else if c = '\t' then
    ['\\', 't']
  else if c.toNat = 0 then
    ['\\', '0']
  else if unprintable c then
    ['\\', 'u', '\x7b'] ++ Nat.toDigits 16 c.toNat ++ ['\x7d']
  else
    [c]

/-- A character as it is written between two delimiters. -/
def escaped (delimiter c : Char) : List Char :=
  escapedBy isUnprintable delimiter c

/-- A text between double quotes, for a choice of unprintable characters. -/
def quotedBy (unprintable : Char → Bool) (text : String) : String :=
  String.ofList ('"' :: text.toList.flatMap (escapedBy unprintable '"') ++ ['"'])

/-- A text between double quotes. -/
def quoted (text : String) : String :=
  quotedBy isUnprintable text

/-- A character between apostrophes. -/
def quotedCharacter (c : Char) : String :=
  String.ofList ('\'' :: escaped '\'' c ++ ['\''])

end KeywordHash.Text
