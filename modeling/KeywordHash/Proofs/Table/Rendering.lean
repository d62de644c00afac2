/-
Module: KeywordHash.Proofs.Table.Rendering
Layer: Proofs
Purpose: Which tables have a source text. Whatever document a table is loaded from, its slots can all be
  read, so the only number that can go past the machine is the length behind an offset, and it does so
  for one offset alone, the greatest word of the machine (`source_of_load`). A table with this offset
  passes all checks, as no word is long enough to reach it, and still has no source text
  (`no_source_of_greatest_offset`).
Imports: KeywordHash.Proofs.Program.Agreement, KeywordHash.Proofs.Table.Convergence,
  KeywordHash.Proofs.Table.Loaded, KeywordHash.Proofs.Table.Machine, KeywordHash.Table.Verification
Trusted boundary: none
Main exports: Program.ofTable_eq_error, Table.find?_without_successor, Table.source_of_load,
  Table.no_source_of_greatest_offset
Open obligations: none
-/
import KeywordHash.Proofs.Program.Agreement
import KeywordHash.Proofs.Table.Convergence
import KeywordHash.Proofs.Table.Loaded
import KeywordHash.Proofs.Table.Machine
import KeywordHash.Table.Verification

namespace KeywordHash

variable {table : Table}

/-- No program is made for a signature with an offset that has no machine word behind it. -/
theorem Program.ofTable_eq_error {offset : Nat}
    (h : table.signature.offsets.find? (wordLimit ≤ · + 1) = some offset) :
    ofTable table = .error (.offsetOverflow offset) := by
  rw [ofTable, h]
  rfl

namespace Table

/-- Of all machine words only the greatest has none behind it. -/
theorem succ_lt_wordLimit_iff {offset : Nat} (offset_lt : offset < wordLimit) :
    offset + 1 < wordLimit ↔ offset ≠ wordLimit - 1 := by
  omega

/-- Among offsets that are machine words, the first that has none behind it is the greatest machine
    word. -/
theorem find?_without_successor {offsets : List Nat} (offset_lt : ∀ offset ∈ offsets, offset < wordLimit)
    (h : wordLimit - 1 ∈ offsets) : offsets.find? (wordLimit ≤ · + 1) = some (wordLimit - 1) := by
  have isSome : (offsets.find? (wordLimit ≤ · + 1)).isSome :=
    List.find?_isSome.2 ⟨wordLimit - 1, h, by decide⟩
  obtain ⟨offset, hOffset⟩ := Option.isSome_iff_exists.1 isSome
  have offset_lt := offset_lt offset (List.mem_of_find?_eq_some hOffset)
  have past : wordLimit ≤ offset + 1 := by simpa using List.find?_some hOffset
  have same : offset = wordLimit - 1 :=
    of_not_not fun differs => Nat.not_lt.2 past ((succ_lt_wordLimit_iff offset_lt).2 differs)
  rw [hOffset, same]

/-- A table that is loaded, whatever document it comes from, has a source text under all names if and only
    if the greatest machine word is none of its offsets. Otherwise the text is given up because of this
    offset, and nothing else is ever the reason. -/
theorem source_of_load {bytes : List UInt8} (loaded : load bytes = .ok table) (names : SourceNames) :
    ((∃ text, table.source names = .ok text) ↔ wordLimit - 1 ∉ table.signature.offsets)
      ∧ ∀ fault, table.source names = .error fault ↔
          fault = .offsetOverflow (wordLimit - 1) ∧ wordLimit - 1 ∈ table.signature.offsets := by
  have consistent : table.Consistent := (Obtained.loaded bytes loaded).consistent
  have offset_lt := (fitsMachine_of_load loaded).offset_lt
  by_cases greatest : wordLimit - 1 ∈ table.signature.offsets
  · have faulted : table.source names = .error (.offsetOverflow (wordLimit - 1)) := by
      rw [source, Program.ofTable_eq_error (find?_without_successor offset_lt greatest)]
      rfl
    simp [faulted, greatest, eq_comm]
  · have rendered : table.source names = .ok ((Program.standingFor table).source names) := by
      rw [source, Program.ofTable_eq_ok consistent fun offset hOffset =>
        (succ_lt_wordLimit_iff (offset_lt offset hOffset)).2 fun same => greatest (same ▸ hOffset)]
      rfl
    simp [rendered, greatest]

/-- A table for one word of one character, with a single offset. -/
def singleOffsetTable (offset : Nat) : Table where
  keywords := [{ text := "a", payload := "A" }]
  signature := .single offset
  values := .constant unused
  slots := #[none, some 0]
  minWordLength := 1
  maxWordLength := 1

/-- The greatest machine word but one is the greatest offset that a table with a source text has. -/
theorem source_of_greatest_offset_but_one :
    load (Text.bytes (singleOffsetTable (wordLimit - 2)).documentText)
        = .ok (singleOffsetTable (wordLimit - 2))
      ∧ (singleOffsetTable (wordLimit - 2)).verify = .ok ()
      ∧ ∃ text, (singleOffsetTable (wordLimit - 2)).source
          { payloadType := "TokenKind", definitions := "keywords.txt" } = .ok text := by
  have loaded : load (Text.bytes (singleOffsetTable (wordLimit - 2)).documentText)
      = .ok (singleOffsetTable (wordLimit - 2)) :=
    load_of_consistent (by decide +kernel) (by decide +kernel)
  exact ⟨loaded, by decide +kernel, (source_of_load loaded _).1.2 (by decide)⟩

/-- The table with the greatest machine word as its offset is loaded and passes the checks. It has no
    source text, under no names. -/
theorem no_source_of_greatest_offset :
    load (Text.bytes (singleOffsetTable (wordLimit - 1)).documentText)
        = .ok (singleOffsetTable (wordLimit - 1))
      ∧ (singleOffsetTable (wordLimit - 1)).verify = .ok ()
      ∧ ∀ names, (singleOffsetTable (wordLimit - 1)).source names
          = .error (.offsetOverflow (wordLimit - 1)) := by
  refine ⟨load_of_consistent (by decide +kernel) (by decide +kernel), by decide +kernel, ?_⟩
  intro names
  rw [source, Program.ofTable_eq_error (find?_without_successor (by decide) (by decide))]
  rfl

end Table

end KeywordHash
