/-
Module: KeywordHash.Table
Layer: Table
Purpose: Finished tables and look-ups in them. A word is hashed by its length and its sampled characters,
  where a character that no keyword samples counts the sentinel, one more than the greatest hash, so
  that it takes the word out of the table. The slot of a hash names a keyword, and the texts are
  compared last. A table may hold anything; whether look-ups answer rightly is for `Verification` to
  tell.
Imports: KeywordHash.Keyword, KeywordHash.Signature, KeywordHash.Text.Numeral, KeywordHash.Values
Trusted boundary: none
Main exports: SearchStats, Table, Table.sentinel, Table.value, Table.hash, Table.slot, Table.lookup,
  Table.payload
Open obligations: none
-/
import KeywordHash.Keyword
import KeywordHash.Signature
import KeywordHash.Text.Numeral
import KeywordHash.Values

namespace KeywordHash

/-- How much work a table was. -/
structure SearchStats where
  signaturesTried : Nat := 0
  adjustments : Nat := 0
deriving DecidableEq, Repr

/-- A hash table for one keyword set. -/
structure Table where
  keywords : List Keyword
  signature : Signature
  values : AssociatedValues
  /-- For each hash the index of the keyword that has it. -/
  slots : Array (Option Nat)
  minWordLength : Nat
  maxWordLength : Nat
  stats : SearchStats := {}
deriving DecidableEq, Repr

namespace Table

/-- The greatest hash that has a slot. -/
def maxHash (table : Table) : Nat :=
  table.slots.size - 1

/-- The value that stands for an unused character. -/
def sentinel (table : Table) : Nat :=
  table.maxHash + 1

/-- The value of a byte as look-ups add it. A negative value other than the one for unused characters
    is taken as a machine word. -/
def value (table : Table) (c : UInt8) : Nat :=
  if table.values.isUnused c then
    table.sentinel
  else
    (table.values.get c % (wordLimit : Int)).toNat

/-- The values of all ASCII characters as look-ups add them. -/
def denseValues (table : Table) : Vector Nat asciiCount :=
  Vector.ofFn fun c => table.value (UInt8.ofNat c)

/-- The hash of a word before it is fitted into a machine word. -/
def hashSum (table : Table) (word : List UInt8) : Nat :=
  word.length + ((table.signature.realize word).map table.value).foldr (· + ·) 0

/-- The hash of a word. -/
def hash (table : Table) (word : List UInt8) : Except Fault Nat :=
  let sum := table.hashSum word
  if sum < wordLimit then .ok sum else .error .hashOverflow

/-- The keyword in the slot of a hash. -/
def slot (table : Table) (hash : Nat) : Except Fault (Option Keyword) :=
  match table.slots[hash]? with
  | none => .ok none
  | some none => .ok none
  | some (some index) =>
      match table.keywords[index]? with
      | none => .error (.slotIndex index)
      | some keyword => .ok (some keyword)

/-- Does the table have words of this length? -/
def hasLength (table : Table) (length : Nat) : Bool :=
  table.minWordLength ≤ length && length ≤ table.maxWordLength

/-- The keyword with the given text. -/
def lookup (table : Table) (word : String) : Except Fault (Option Keyword) :=
  if table.hasLength word.utf8ByteSize then
    match table.hash (Text.bytes word) with
    | .error fault => .error fault
    | .ok hash =>
        if hash ≤ table.maxHash then
          (table.slot hash).map (·.filter (·.text = word))
        else
          .ok none
  else
    .ok none

/-- The payload of the keyword with the given text. -/
def payload (table : Table) (word : String) : Except Fault (Option String) :=
  (table.lookup word).map (·.map (·.payload))

end Table

end KeywordHash
