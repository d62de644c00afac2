/-
Module: KeywordHash.Program
Layer: Program
Purpose: The look-up program that stands for a table where keywords are recognised. It has the values of
  the ASCII characters in an array of the narrowest sufficient element type, a row of text and payload
  for each hash, and an arm for each range of word lengths that reaches the same offsets. What the
  program computes is defined here without regard to the table; an index outside an array makes it
  fail.
Imports: KeywordHash.Table
Trusted boundary: none
Main exports: ElementType, Arm, Row, Program, Program.hash, Program.lookup, lengthArms,
  Program.ofTable
Open obligations: none
-/
import KeywordHash.Table

namespace KeywordHash

/-- The type of the stored values. -/
inductive ElementType where
  | u8
  | u16
  | u32
deriving DecidableEq, Repr

namespace ElementType

/-- The name of the type. -/
def name : ElementType → String
  | .u8 => "u8"
  | .u16 => "u16"
  | .u32 => "u32"

/-- One more than the greatest number of the type. -/
def limit : ElementType → Nat
  | .u8 => 1 <<< 8
  | .u16 => 1 <<< 16
  | .u32 => 1 <<< 32

/-- The narrowest type for numbers up to the given one, or the widest if none is wide enough. -/
def upTo (greatest : Nat) : ElementType :=
  if greatest < limit .u8 then
    .u8
  else if greatest < limit .u16 then
    .u16
  else
    .u32

end ElementType

/-- The offsets that are added for words of certain lengths, the greatest offset first. -/
structure Arm where
  shortest : Nat
  /-- The greatest length of the arm, if there is one. -/
  longest : Option Nat
  offsets : List Nat
deriving DecidableEq, Repr

/-- Is the arm for words of this length? -/
def Arm.covers (arm : Arm) (length : Nat) : Bool :=
  arm.shortest ≤ length && arm.longest.all (length ≤ ·)

/-- What is stored for a hash: text and payload of a keyword, or nothing. -/
abbrev Row := Option (String × String)

/-- A look-up program. -/
structure Program where
  signature : Signature
  minWordLength : Nat
  maxWordLength : Nat
  maxHash : Nat
  elementType : ElementType
  values : Vector Nat asciiCount
  arms : List Arm
  rows : Array Row
deriving DecidableEq, Repr

namespace Program

/-! ### What a program computes -/

/-- The value of a byte. Bytes past ASCII count one more than the greatest hash. -/
def value (program : Program) (c : UInt8) : Nat :=
  program.values[c.toNat]?.getD (program.maxHash + 1)

/-- The hash of a word, by the first arm that covers its length. -/
def hash (program : Program) (word : List UInt8) : Option Nat :=
  match program.arms.find? (·.covers word.length) with
  | none => some word.length
  | some arm => do
      let characters ← arm.offsets.mapM (word[·]?)
      return word.length + (characters.map program.value).foldr (· + ·) 0

/-- The payload of the row that the word leads to, if its text is the word. -/
def lookup (program : Program) (word : String) : Option (Option String) :=
  if program.minWordLength ≤ word.utf8ByteSize ∧ word.utf8ByteSize ≤ program.maxWordLength then do
    let key ← program.hash (Text.bytes word)
    if key ≤ program.maxHash then
      match ← program.rows[key]? with
      | some (text, payload) => return if text = word then some payload else none
      | none => return none
    else
      return none
  else
    return none

end Program

/-! ### The program of a table -/

/-- The arms for offsets from the greatest down, where the lengths past the given one are covered. A word
    reaches an offset if it is longer than the offset. -/
def armsBelow (longest : Option Nat) : List Nat → List Arm
  | [] => []
  | offset :: smaller =>
      { shortest := offset + 1, longest := longest, offsets := offset :: smaller }
        :: armsBelow (some offset) smaller

/-- The arms of a signature, the longest words first. -/
def lengthArms (signature : Signature) : List Arm :=
  armsBelow none signature.offsets.reverse

namespace Program

/-- The row of a hash. -/
def rowOf (table : Table) (hash : Nat) : Except Fault Row :=
  (table.slot hash).map (·.map fun keyword => (keyword.text, keyword.payload))

/-- The program of a table. The length behind the greatest offset has to be a machine word, and every
    slot has to name a keyword. -/
def ofTable (table : Table) : Except Fault Program := do
  match table.signature.offsets.find? (wordLimit ≤ · + 1) with
  | some offset => throw (.offsetOverflow offset)
  | none => pure ()
  let rows ← (List.range (table.maxHash + 1)).mapM (rowOf table)
  return {
    signature := table.signature
    minWordLength := table.minWordLength
    maxWordLength := table.maxWordLength
    maxHash := table.maxHash
    elementType := .upTo table.sentinel
    values := table.denseValues
    arms := lengthArms table.signature
    rows := rows.toArray }

end Program

end KeywordHash
