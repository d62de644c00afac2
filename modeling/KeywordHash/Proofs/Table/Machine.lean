/-
Module: KeywordHash.Proofs.Table.Machine
Layer: Proofs
Purpose: The numbers of a built table are machine numbers if those that went into it are: the lines of the
  keywords, the bytes of all of them together, the tries for one signature and the count of signatures
  (`fitsMachine_of_build`). Whatever else the table holds is bounded by these. Such a table is loaded as
  it was written (`load_of_build`), like every consistent table of machine numbers.
Imports: KeywordHash.Proofs.Keyword.Definitions, KeywordHash.Proofs.Table.Document
Trusted boundary: none
Main exports: Keyword.length_list_le_totalLength, Table.load_of_consistent,
  Table.fitsMachine_of_build, Table.load_of_build
Open obligations: none
-/
import KeywordHash.Proofs.Keyword.Definitions
import KeywordHash.Proofs.Table.Document

namespace KeywordHash

namespace Keyword

variable {keywords : List Keyword}

/-- The lengths of the shortest and the longest keyword are no more than those of all together. -/
theorem shortest_le_totalLength (ne_nil : keywords ≠ []) : shortest keywords ≤ totalLength keywords := by
  obtain ⟨hShortest, _⟩ := List.min?_eq_some_iff.1 (lengths_eq ne_nil).1
  obtain ⟨keyword, hKeyword, length_eq⟩ := List.mem_map.1 hShortest
  rw [← length_eq]
  exact length_le_totalLength hKeyword

theorem longest_le_totalLength (ne_nil : keywords ≠ []) : longest keywords ≤ totalLength keywords := by
  obtain ⟨hLongest, _⟩ := List.max?_eq_some_iff.1 (lengths_eq ne_nil).2
  obtain ⟨keyword, hKeyword, length_eq⟩ := List.mem_map.1 hLongest
  rw [← length_eq]
  exact length_le_totalLength hKeyword

/-- There are no more keywords than bytes in them if none is empty. -/
theorem length_list_le_totalLength (text_ne_empty : ∀ keyword ∈ keywords, keyword.text ≠ "") :
    keywords.length ≤ totalLength keywords := by
  have size_pos : ∀ size ∈ keywords.map length, 1 ≤ size := by
    intro size hSize
    obtain ⟨keyword, hKeyword, rfl⟩ := List.mem_map.1 hSize
    rw [Nat.one_le_iff_ne_zero]
    intro zero
    exact text_ne_empty keyword hKeyword (String.utf8ByteSize_eq_zero_iff.1 zero)
  have card_le := List.card_nsmul_le_sum _ 1 size_pos
  rwa [List.length_map, Nat.nsmul_eq_mul, Nat.mul_one] at card_le

end Keyword

namespace Table

variable {keywords : List Keyword} {maxTries : Nat} {table : Table}

/-- A consistent table whose numbers are those of the machine is loaded as it was written. -/
theorem load_of_consistent (consistent : table.Consistent) (fits : table.FitsMachine) :
    load (Text.bytes table.documentText) = .ok table := by
  rw [load, Document.read_documentText fits]
  dsimp only
  rw [Document.toTable_of_consistent consistent]
  rfl

/-- Every number in a built table is one of the machine if those are that the table was built from, and
    the count of the signatures that were tried. -/
theorem fitsMachine_of_build (built : build keywords maxTries = .ok table)
    (total_lt : Keyword.totalLength keywords < wordLimit)
    (line_lt : ∀ keyword ∈ keywords, keyword.line < wordLimit) (tries_lt : maxTries < wordLimit)
    (tried_lt : table.stats.signaturesTried < wordLimit) : table.FitsMachine := by
  obtain ⟨keywords_eq, perfect⟩ := perfect_of_build built
  obtain ⟨valid, found, rfl, hAssign, bounds, _, longest_eq, admitted⟩ := build_eq_ok built
  have assigned := assigned_of_assign hAssign
  have longest_lt := Nat.lt_of_le_of_lt (Keyword.longest_le_totalLength valid.ne_nil) total_lt
  constructor
  case line_lt => exact line_lt
  case offset_lt =>
    intro offset hOffset
    have offset_lt := admitted.all_lt offset hOffset
    rw [longest_eq] at offset_lt
    exact Nat.lt_trans offset_lt longest_lt
  case value_range =>
    intro value hValue
    obtain ⟨c, rfl⟩ := AssociatedValues.exists_get_eq hValue
    have value_le : found.values.get c ≤ 2 ^ 31 - 1 := assigned.value_le c
    have unused_or : found.values.get c = -1 ∨ 0 ≤ found.values.get c := by
      rcases perfect.value_range c with isUnused | ⟨nonneg, _⟩
      · exact Or.inl isUnused
      · exact Or.inr nonneg
    dsimp only [ofFound]
    omega
  case index_lt =>
    intro index hIndex
    have index_lt := perfect.consistent.index_lt index hIndex
    have count_le := Keyword.length_list_le_totalLength valid.text_ne_empty
    exact Nat.lt_trans index_lt (Nat.lt_of_le_of_lt count_le total_lt)
  case minWordLength_lt =>
    exact Nat.lt_of_le_of_lt (Keyword.shortest_le_totalLength valid.ne_nil) total_lt
  case maxWordLength_lt => exact longest_lt
  case signaturesTried_lt => exact tried_lt
  case adjustments_lt => exact Nat.lt_trans (adjustments_lt_of_assign hAssign) tries_lt

/-- A built table whose numbers are those of the machine is loaded as it was written. -/
theorem load_of_build (built : build keywords maxTries = .ok table) (fits : table.FitsMachine) :
    load (Text.bytes table.documentText) = .ok table :=
  load_of_consistent (perfect_of_build built).2.consistent fits

end Table

end KeywordHash
