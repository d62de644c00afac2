/-
Module: KeywordHash.Proofs.Table.Queries
Layer: Proofs
Purpose: What a document has to be checked for so that its table can be asked anything: no matter what it
  says, a table that is loaded answers every query about words that leave room for their hash
  (`queries_of_load`). The slots are checked, so each index in them names a keyword; the values are
  checked, so none counts more than the sentinel, which bounds the hash by the number of offsets within
  the word. Keywords, length range and offsets may be anything.
Imports: KeywordHash.Proofs.Table.Machine, KeywordHash.Proofs.Table.Probe,
  KeywordHash.Proofs.Table.Verification
Trusted boundary: none
Main exports: Table.HasRoom, Table.Consistent.hashSum_le_sentinel, Table.Consistent.hashSum_lt_of_room,
  Table.Consistent.le_sentinel_of_mem_denseValues, Table.queries_of_load
Open obligations: none
-/
import KeywordHash.Proofs.Table.Machine
import KeywordHash.Proofs.Table.Probe
import KeywordHash.Proofs.Table.Verification

namespace KeywordHash.Table

variable {table : Table}

/-- The length of the word and the sentinel for every offset add up to a machine word. -/
def HasRoom (table : Table) (word : List UInt8) : Prop :=
  word.length + table.signature.size * table.sentinel < wordLimit

namespace Consistent

variable (consistent : table.Consistent)

include consistent

/-- Each character that is sampled adds the sentinel to the hash at most. -/
theorem hashSum_le_sentinel (word : List UInt8) :
    table.hashSum word
      ≤ word.length + (table.signature.sampledOffsets word.length).length * table.sentinel :=
  hashSum_le fun c _ => consistent.value_le_sentinel c

/-- The hash of a word with room is a machine word. -/
theorem hashSum_lt_of_room {word : List UInt8} (room : table.HasRoom word) :
    table.hashSum word < wordLimit := by
  calc table.hashSum word
      ≤ word.length + (table.signature.sampledOffsets word.length).length * table.sentinel :=
        consistent.hashSum_le_sentinel word
    _ ≤ word.length + table.signature.size * table.sentinel :=
        Nat.add_le_add_left
          (Nat.mul_le_mul_right _ (table.signature.length_sampledOffsets_le word.length)) _
    _ < wordLimit := room

/-- No ASCII character counts more than the sentinel. -/
theorem le_sentinel_of_mem_denseValues {value : Nat} (h : value ∈ table.denseValues) :
    value ≤ table.sentinel := by
  obtain ⟨c, c_lt, rfl⟩ := Vector.getElem_of_mem h
  rw [denseValues, Vector.getElem_ofFn]
  exact consistent.value_le_sentinel _

end Consistent

/-- Whatever document a table is loaded from, each keyword index is in one slot and nothing else in any,
    every hash has a slot that can be read, no character counts more than the sentinel, and every word with
    room has a hash within its bound and can be looked up. Keywords with room can be checked, and probes
    with room classified. -/
theorem queries_of_load {bytes : List UInt8} (loaded : load bytes = .ok table) :
    (∀ index, some index ∈ table.slots → index < table.keywords.length)
      ∧ (∀ index < table.keywords.length, table.slots.count (some index) = 1)
      ∧ (∀ hash, ∃ found, table.slot hash = .ok found)
      ∧ (∀ value ∈ table.denseValues, value ≤ table.sentinel)
      ∧ (∀ word : List UInt8, table.HasRoom word →
          ∃ hash, table.hash word = .ok hash
            ∧ hash ≤ word.length
              + (table.signature.sampledOffsets word.length).length * table.sentinel)
      ∧ (∀ word : String, table.HasRoom (Text.bytes word) →
          (∃ found, table.lookup word = .ok found) ∧ ∃ found, table.payload word = .ok found)
      ∧ ((∀ keyword ∈ table.keywords, table.HasRoom keyword.bytes) →
          (∃ pairs, table.collisions = .ok pairs)
            ∧ (∃ texts, table.unreachable = .ok texts)
            ∧ (table.verify = .ok ()
              ∨ ∃ inconsistency, table.verify = .error (.invalidTable inconsistency)))
      ∧ ∀ probes : List String, (∀ probe ∈ probes, table.HasRoom (Text.bytes probe)) →
          (∃ wrong, table.falsePositives probes = .ok wrong)
            ∧ ∃ summary, table.summarize probes = .ok summary := by
  have consistent : table.Consistent := (Obtained.loaded bytes loaded).consistent
  have looked : ∀ word : String, table.HasRoom (Text.bytes word) →
      table.lookup word = .ok (table.found? word) := fun word room =>
    consistent.lookup_eq_found? (consistent.hashSum_lt_of_room room)
  refine ⟨consistent.index_lt, consistent.count_eq_one, ?_, ?_, ?_, ?_, ?_, ?_⟩
  · intro hash
    exact ⟨_, consistent.slot_eq_ok hash⟩
  · intro value hValue
    exact consistent.le_sentinel_of_mem_denseValues hValue
  · intro word room
    exact ⟨_, hash_eq_ok (consistent.hashSum_lt_of_room room), consistent.hashSum_le_sentinel word⟩
  · intro word room
    refine ⟨⟨_, looked word room⟩, (table.found? word).map (·.payload), ?_⟩
    rw [payload, looked word room]
    rfl
  · intro room
    have sum_lt : ∀ keyword ∈ table.keywords, table.hashSum keyword.bytes < wordLimit :=
      fun keyword hKeyword => consistent.hashSum_lt_of_room (room keyword hKeyword)
    obtain ⟨pairs, hPairs, _⟩ := @collisionsFrom_eq_ok table table.keywords [] sum_lt
    obtain ⟨texts, hTexts, _⟩ := @unreachableAmong_eq_ok table table.keywords
      fun keyword hKeyword => ⟨_, looked keyword.text (room keyword hKeyword)⟩
    exact ⟨⟨pairs, hPairs⟩, ⟨texts, hTexts⟩, (verify_eq_ok_iff_checks consistent.index_lt sum_lt).1⟩
  · intro probes room
    have sum_lt : ∀ probe ∈ probes, table.hashSum (Text.bytes probe) < wordLimit :=
      fun probe hProbe => consistent.hashSum_lt_of_room (room probe hProbe)
    exact ⟨⟨_, consistent.falsePositives_eq_ok sum_lt⟩, ⟨_, consistent.summarize_eq_ok sum_lt⟩⟩

/-- A table in which nothing is as it would be built, except for what is checked: the texts are not ASCII,
    empty and repeated, an offset is past all words, and no length is in the range. -/
def strangeTable : Table where
  keywords :=
    [{ text := "é", payload := "E" }, { text := "", payload := "" }, { text := "", payload := "Again" }]
  signature := { offsets := [0, 0x100000000], ne_nil := by decide, increasing := by decide }
  values := { cells := (Vector.replicate asciiCount unused).set 120 2 (by decide) }
  slots := #[some 2, none, some 0, some 1]
  minWordLength := 5
  maxWordLength := 3

theorem consistent_strange : strangeTable.Consistent where
  index_lt := by
    intro index hIndex
    simp only [strangeTable, List.mem_toArray, List.mem_cons, Option.some.injEq, reduceCtorEq,
      List.not_mem_nil, or_false, false_or] at hIndex
    rcases hIndex with rfl | rfl | rfl
    all_goals decide
  count_eq_one := by decide
  value_range := by decide +kernel

/-- The strange table is loaded, and can be asked like any other. -/
theorem queries_strange :
    load (Text.bytes strangeTable.documentText) = .ok strangeTable
      ∧ (∀ keyword ∈ strangeTable.keywords, strangeTable.HasRoom keyword.bytes)
      ∧ (∀ probe ∈ ["aé", ""], strangeTable.HasRoom (Text.bytes probe))
      ∧ (∀ hash, ∃ found, strangeTable.slot hash = .ok found)
      ∧ (∃ hash, strangeTable.hash (Text.bytes "aé") = .ok hash ∧ hash ≤ 3 + 1 * 4)
      ∧ (∃ found, strangeTable.lookup "aé" = .ok found)
      ∧ (strangeTable.verify = .ok ()
        ∨ ∃ inconsistency, strangeTable.verify = .error (.invalidTable inconsistency))
      ∧ ∃ summary, strangeTable.summarize ["aé", ""] = .ok summary := by
  have fits : strangeTable.FitsMachine := {
    line_lt := by decide
    offset_lt := by decide
    value_range := by decide +kernel
    index_lt := fun index hIndex =>
      Nat.lt_trans (consistent_strange.index_lt index hIndex) (by decide)
    minWordLength_lt := by decide
    maxWordLength_lt := by decide
    signaturesTried_lt := by decide
    adjustments_lt := by decide }
  have loaded := load_of_consistent consistent_strange fits
  have keywords_room : ∀ keyword ∈ strangeTable.keywords, strangeTable.HasRoom keyword.bytes := by
    unfold HasRoom
    decide +kernel
  have probes_room : ∀ probe ∈ ["aé", ""], strangeTable.HasRoom (Text.bytes probe) := by
    unfold HasRoom
    decide +kernel
  obtain ⟨_, _, slots, _, hashes, lookups, checks, probes⟩ := queries_of_load loaded
  have word_room : strangeTable.HasRoom (Text.bytes "aé") := probes_room "aé" (by simp)
  have bound_eq : (Text.bytes "aé").length
      + (strangeTable.signature.sampledOffsets (Text.bytes "aé").length).length
        * strangeTable.sentinel = 3 + 1 * 4 := by decide +kernel
  have hashed := hashes _ word_room
  rw [bound_eq] at hashed
  exact ⟨loaded, keywords_room, probes_room, slots, hashed, (lookups "aé" word_room).1,
    (checks keywords_room).2.2, (probes _ probes_room).2⟩

end KeywordHash.Table
