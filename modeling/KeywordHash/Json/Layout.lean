/-
Module: KeywordHash.Json.Layout
Layer: Json
Purpose: The written form of JSON values. Strings escape the quote, the backslash and the control
  characters below U+0020, the latter by a letter where there is one. Every element of an array and
  every member of an object stands on a line of its own, two blanks further in than the brackets;
  empty arrays and objects are two brackets.
Imports: none
Trusted boundary: none
Main exports: escaped, text, number, array, object
Open obligations: none
-/

namespace KeywordHash.Json.Layout

/-- The hexadecimal digits of a code below 256, at least two. -/
def hexPair (n : Nat) : List Char :=
  [Nat.digitChar (n / 16), Nat.digitChar (n % 16)]

/-- A character as it is written in a string. -/
def escaped (c : Char) : List Char :=
  if c = '"' then
    ['\\', '"']
  else if c = '\\' then
    ['\\', '\\']
  else if c.toNat = 0x08 then
    ['\\', 'b']
  else if c.toNat = 0x0C then
    ['\\', 'f']
  else if c = '\n' then
    ['\\', 'n']
  else if c = '\r' then
    ['\\', 'r']
  else if c = '\t' then
    ['\\', 't']
  else if c.toNat < 0x20 then
    ['\\', 'u', '0', '0'] ++ hexPair c.toNat
  else
    [c]

/-- A string. -/
def text (s : String) : String :=
  String.ofList ('"' :: s.toList.flatMap escaped ++ ['"'])

/-- A whole number. -/
def number : Int → String
  | .ofNat n => Nat.repr n
  | .negSucc n => "-" ++ Nat.repr (n + 1)

/-- The start of a line at the given depth of nesting. -/
def newLine (depth : Nat) : String :=
  String.ofList ('\n' :: List.replicate (2 * depth) ' ')

/-- Written items between brackets that stand at the given depth. -/
def bracketed (opening closing : String) (depth : Nat) (items : List String) : String :=
  if items.isEmpty then
    opening ++ closing
  else
    opening ++ String.intercalate "," (items.map (newLine (depth + 1) ++ ·)) ++ newLine depth
      ++ closing

/-- An array of written elements. -/
def array (depth : Nat) (elements : List String) : String :=
  bracketed "[" "]" depth elements

/-- An object of keys with written values. -/
def object (depth : Nat) (members : List (String × String)) : String :=
  bracketed "\x7b" "\x7d" depth (members.map fun entry => text entry.1 ++ ": " ++ entry.2)

end KeywordHash.Json.Layout
