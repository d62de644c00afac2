/-
Module: KeywordHash.Keyword
Layer: Data
Purpose: Keywords. A keyword has a text, the payload that a look-up answers with, and the line of its
  definition. The length of a keyword is its length in bytes.
Imports: KeywordHash.Text.Bytes
Trusted boundary: none
Main exports: Keyword, Keyword.bytes, Keyword.length, Keyword.isAscii, find?
Open obligations: none
-/
import KeywordHash.Text.Bytes

namespace KeywordHash

/-- A word to be recognised and the payload that stands for it. -/
structure Keyword where
  text : String
  payload : String
  /-- The line of the definition, counted from one, and zero for a keyword without one. -/
  line : Nat := 0
deriving DecidableEq, Repr

namespace Keyword

/-- The bytes of the keyword, from which its hash is taken. -/
def bytes (keyword : Keyword) : List UInt8 :=
  Text.bytes keyword.text

/-- The length of the keyword in bytes. -/
def length (keyword : Keyword) : Nat :=
  keyword.text.utf8ByteSize

/-- Is every byte of the keyword an ASCII character? -/
def isAscii (keyword : Keyword) : Bool :=
  keyword.bytes.all Text.isAscii

/-- The first keyword of a list that has the given text. This is what a look-up in a table has to
    agree with. -/
def find? (keywords : List Keyword) (text : String) : Option Keyword :=
  keywords.find? (·.text = text)

end Keyword

end KeywordHash
