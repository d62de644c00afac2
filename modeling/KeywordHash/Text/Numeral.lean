/-
Module: KeywordHash.Text.Numeral
Layer: Text
Purpose: Decimal numerals for machine words. A numeral is one optional plus sign and at least one ASCII
  digit; its value has to be below `wordLimit`. Leading zeros are allowed, blanks and signs of other
  kinds are not.
Imports: none
Trusted boundary: none
Main exports: wordLimit, numeral?
Open obligations: none
-/

namespace KeywordHash

/-- One more than the greatest number that a machine word holds. -/
def wordLimit : Nat := 1 <<< 64

namespace Text

/-- The word that a numeral stands for. -/
def numeral? (text : List Char) : Option Nat :=
  let digits :=
    match text with
    | '+' :: rest => rest
    | _ => text
  if digits.isEmpty || !digits.all Char.isDigit then
    none
  else
    let value := Nat.ofDigitChars 10 digits 0
    if value < wordLimit then some value else none

end Text

end KeywordHash
