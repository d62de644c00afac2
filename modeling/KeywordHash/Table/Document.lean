/-
Module: KeywordHash.Table.Document
Layer: Table
Purpose: Tables as JSON documents. A document holds the fields of a table under their names, in a fixed
  order when it is written and in any order when it is read. What is read is checked for consistency
  before it counts as a table: the signature has to be one, every keyword has to stand in exactly one
  slot and nothing else in any, and every value has to be unused or a possible hash.
Imports: KeywordHash.Error, KeywordHash.Json.Layout, KeywordHash.Json.Reader, KeywordHash.Table
Trusted boundary: none
Main exports: Table.documentText, Document, Document.read, Document.toTable, Table.load
Open obligations: none
-/
import KeywordHash.Error
import KeywordHash.Json.Layout
import KeywordHash.Json.Reader
import KeywordHash.Table

namespace KeywordHash

/-! ### Writing -/

/-- A keyword as an object. -/
def Keyword.documentText (keyword : Keyword) (depth : Nat) : String :=
  Json.Layout.object depth
    [("text", Json.Layout.text keyword.text), ("payload", Json.Layout.text keyword.payload),
      ("line", Json.Layout.number keyword.line)]

/-- The content of a slot: an index, or the name `null`. -/
def slotText : Option Nat → String
  | none => "null"
  | some index => Json.Layout.number index

/-- The document of a table. -/
def Table.documentText (table : Table) : String :=
  Json.Layout.object 0
    [("keywords", Json.Layout.array 1 (table.keywords.map (·.documentText 2))),
      ("signature", Json.Layout.array 1 (table.signature.offsets.map fun (offset : Nat) =>
        Json.Layout.number offset)),
      ("asso_values", Json.Layout.array 1 (table.values.cells.toList.map Json.Layout.number)),
      ("slots", Json.Layout.array 1 (table.slots.toList.map slotText)),
      ("min_word_length", Json.Layout.number table.minWordLength),
      ("max_word_length", Json.Layout.number table.maxWordLength),
      ("signatures_tried", Json.Layout.number table.stats.signaturesTried),
      ("adjustments", Json.Layout.number table.stats.adjustments)]

/-! ### Reading -/

/-- The fields of a table as they were read, not yet checked against each other. -/
structure Document where
  keywords : List Keyword
  offsets : List Nat
  values : List Int
  slots : List (Option Nat)
  minWordLength : Nat
  maxWordLength : Nat
  signaturesTried : Nat
  adjustments : Nat
deriving DecidableEq, Repr

namespace Document

open Json

/-- Keep what was read behind a key. -/
def keep {α σ : Type} (former : Option α) (item : Reader α) (store : α → σ) : Reader σ := fun s => do
  let (a, rest) ← once former item s
  return (store a, rest)

/-- The members of a keyword that were read so far. -/
structure KeywordMembers where
  text : Option String := none
  payload : Option String := none
  line : Option Nat := none

/-- Read one more member of a keyword. -/
def keywordMember (key : String) (read : KeywordMembers) : Reader KeywordMembers :=
  match key with
  | "text" => keep read.text Json.text fun text => { read with text := some text }
  | "payload" => keep read.payload Json.text fun payload => { read with payload := some payload }
  | "line" => keep read.line natural fun line => { read with line := some line }
  | _ => fun s => do return (read, ← passMember s)

/-- Read a keyword from the members of an object, of which there are fewer than the limit. -/
def keywordObject (limit : Nat) : Reader Keyword := fun s => do
  let (read, rest) ← members limit keywordMember {} s
  match read with
  | { text := some text, payload := some payload, line := some line } =>
      return ({ text := text, payload := payload, line := line }, rest)
  | _ => throw .mismatched

/-- Read a keyword from the elements of an array. -/
def keywordFields : Reader Keyword := fun s => do
  let (text, s) ← element Json.text true s
  let (payload, s) ← element Json.text false s
  let (line, s) ← element natural false s
  return ({ text := text, payload := payload, line := line }, s)

/-- Read a list of keywords. -/
def keywordList (limit : Nat) : Reader (List Keyword) :=
  array (elements limit (record (keywordObject limit) keywordFields))

/-- Read a list of offsets. -/
def offsetList (limit : Nat) : Reader (List Nat) :=
  array (elements limit natural)

/-- Read a value for each ASCII character. -/
def valueList : Reader (List Int) :=
  array (exactly integer asciiCount true)

/-- Read the contents of the slots. -/
def slotList (limit : Nat) : Reader (List (Option Nat)) :=
  array (elements limit (optional natural))

/-- The members of a table that were read so far. -/
structure Members where
  keywords : Option (List Keyword) := none
  offsets : Option (List Nat) := none
  values : Option (List Int) := none
  slots : Option (List (Option Nat)) := none
  minWordLength : Option Nat := none
  maxWordLength : Option Nat := none
  signaturesTried : Option Nat := none
  adjustments : Option Nat := none

/-- Read one more member of a table. -/
def tableMember (limit : Nat) (key : String) (read : Members) : Reader Members :=
  match key with
  | "keywords" =>
      keep read.keywords (keywordList limit) fun list => { read with keywords := some list }
  | "signature" => keep read.offsets (offsetList limit) fun list => { read with offsets := some list }
  | "asso_values" => keep read.values valueList fun list => { read with values := some list }
  | "slots" => keep read.slots (slotList limit) fun list => { read with slots := some list }
  | "min_word_length" => keep read.minWordLength natural fun n => { read with minWordLength := some n }
  | "max_word_length" => keep read.maxWordLength natural fun n => { read with maxWordLength := some n }
  | "signatures_tried" =>
      keep read.signaturesTried natural fun n => { read with signaturesTried := some n }
  | "adjustments" => keep read.adjustments natural fun n => { read with adjustments := some n }
  | _ => fun s => do return (read, ← passMember s)

/-- The fields of a table, if all its members were read. -/
def ofMembers? (read : Members) : Option Document := do
  return {
    keywords := ← read.keywords
    offsets := ← read.offsets
    values := ← read.values
    slots := ← read.slots
    minWordLength := ← read.minWordLength
    maxWordLength := ← read.maxWordLength
    signaturesTried := ← read.signaturesTried
    adjustments := ← read.adjustments }

/-- Read a table from the members of an object. -/
def tableObject (limit : Nat) : Reader Document := fun s => do
  let (read, rest) ← members limit (tableMember limit) {} s
  match ofMembers? read with
  | some table => return (table, rest)
  | none => throw .mismatched

/-- Read a table from the elements of an array. -/
def tableFields (limit : Nat) : Reader Document := fun s => do
  let (keywords, s) ← element (keywordList limit) true s
  let (offsets, s) ← element (offsetList limit) false s
  let (values, s) ← element valueList false s
  let (slots, s) ← element (slotList limit) false s
  let (minWordLength, s) ← element natural false s
  let (maxWordLength, s) ← element natural false s
  let (signaturesTried, s) ← element natural false s
  let (adjustments, s) ← element natural false s
  return (
    { keywords := keywords, offsets := offsets, values := values, slots := slots
      minWordLength := minWordLength, maxWordLength := maxWordLength
      signaturesTried := signaturesTried, adjustments := adjustments }, s)

/-- Read the fields of a table from the bytes of a document. Elements and members take at least one byte
    each, so there are fewer of them than bytes. -/
def read (bytes : List UInt8) : Except Defect Document :=
  let limit := bytes.length
  document (record (tableObject limit) (tableFields limit)) bytes

/-! ### Consistency -/

/-- The greatest hash that has a slot. -/
def maxHash (document : Document) : Nat :=
  document.slots.length - 1

/-- How many slots hold the index. -/
def slotCount (document : Document) (index : Nat) : Nat :=
  document.slots.count (some index)

/-- The first slot content that is an index past the keyword list. -/
def strayIndex? (document : Document) : Option Nat :=
  (document.slots.filterMap id).find? (document.keywords.length ≤ ·)

/-- The first keyword that does not stand in exactly one slot, with its index. -/
def misplacedKeyword? (document : Document) : Option (Keyword × Nat) :=
  document.keywords.zipIdx.find? fun (_, index) => document.slotCount index ≠ 1

/-- The first value that is neither unused nor a possible hash, with its character. -/
def strayValue? (document : Document) : Option (Int × Nat) :=
  document.values.zipIdx.find? fun (value, _) =>
    !(value = unused || 0 ≤ value && value ≤ document.maxHash)

/-- The first inconsistency among the slots, the keywords and the values, in this order. -/
def inconsistency? (document : Document) : Option Inconsistency :=
  match document.strayIndex?, document.misplacedKeyword?, document.strayValue? with
  | some index, _, _ => some (.slotIndex index document.keywords.length)
  | none, some (keyword, index), _ => some (.slotCount keyword.text (document.slotCount index))
  | none, none, some (value, c) => some (.valueRange value (Char.ofNat c) document.maxHash)
  | none, none, none => none

/-- The table of consistent fields. -/
def toTable (document : Document) : Except Inconsistency Table :=
  match Signature.ofOffsets? document.offsets with
  | none => .error .offsets
  | some signature =>
      match document.inconsistency? with
      | some inconsistency => .error inconsistency
      | none =>
          .ok
            { keywords := document.keywords
              signature := signature
              values := .ofList document.values
              slots := document.slots.toArray
              minWordLength := document.minWordLength
              maxWordLength := document.maxWordLength
              stats :=
                { signaturesTried := document.signaturesTried
                  adjustments := document.adjustments } }

end Document

/-- Read a table from the bytes of a document. -/
def Table.load (bytes : List UInt8) : Except Error Table :=
  match Document.read bytes with
  | .error defect => .error (.document defect)
  | .ok document => document.toTable.mapError .invalidTable

end KeywordHash
