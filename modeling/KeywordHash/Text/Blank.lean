/-
Module: KeywordHash.Text.Blank
Layer: Text
Purpose: Blank characters, which are those with the White_Space property, and the removal of blanks
  from the ends of a text. The property is wider than ASCII: it holds the no-break space and the
  ideographic space, but not the zero-width space, the byte order mark, or U+001C to U+001F.
Imports: KeywordHash.Text.CodeRange
Trusted boundary: none
Main exports: isBlank, trimStart, trimEnd, trim
Open obligations: none
-/
import KeywordHash.Text.CodeRange

namespace KeywordHash.Text

/-- The code points with the White_Space property. -/
def blankRanges : List CodeRange :=
  [⟨0x0009, 0x000D⟩, ⟨0x0020, 0x0020⟩, ⟨0x0085, 0x0085⟩, ⟨0x00A0, 0x00A0⟩, ⟨0x1680, 0x1680⟩,
    ⟨0x2000, 0x200A⟩, ⟨0x2028, 0x2029⟩, ⟨0x202F, 0x202F⟩, ⟨0x205F, 0x205F⟩, ⟨0x3000, 0x3000⟩]

/-- Does the character have the White_Space property? -/
def isBlank (c : Char) : Bool :=
  CodeRange.cover blankRanges c

/-- The text without the blanks that it begins with. -/
def trimStart (text : List Char) : List Char :=
  text.dropWhile isBlank

/-- The text without the blanks that it ends with. -/
def trimEnd (text : List Char) : List Char :=
  (text.reverse.dropWhile isBlank).reverse

/-- The text without the blanks at either end. -/
def trim (text : List Char) : List Char :=
  trimEnd (trimStart text)

end KeywordHash.Text
