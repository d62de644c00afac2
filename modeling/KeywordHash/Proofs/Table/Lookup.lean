/-
Module: KeywordHash.Proofs.Table.Lookup
Layer: Proofs
Purpose: A look-up in a built table answers like a scan of the keyword list (`lookup_eq_find?`).
  Whatever word is looked up, the slot of its hash can only hold a keyword with that hash, and of these
  at most one has the text of the word; so it makes no difference why a word that is no keyword is
  turned away.
Imports: KeywordHash.Proofs.Table.Consistent
Trusted boundary: none
Main exports: Table.Perfect.slotKeyword?_eq_some_iff, Table.Perfect.lookup_eq,
  Table.Perfect.lookup_eq_some_iff, Table.lookup_eq_find?
Open obligations: none
-/
import KeywordHash.Proofs.Table.Consistent

namespace KeywordHash

namespace Table

variable {table : Table}

namespace Perfect

/-- The slot of a hash holds the keyword with that hash, if there is one. -/
theorem slotKeyword?_eq_some_iff (perfect : table.Perfect) {hash : Nat} {keyword : Keyword} :
    table.slotKeyword? hash = some keyword ↔
      keyword ∈ table.keywords ∧ table.hashSum keyword.bytes = hash := by
  rw [slotKeyword?, Option.bind_eq_some_iff]
  constructor
  · rintro ⟨index, hSlot, hKeyword⟩
    obtain ⟨owner, hOwner, hHash⟩ :=
      (perfect.slot_iff hash index).1 (Option.join_eq_some_iff.1 hSlot)
    rw [hKeyword] at hOwner
    cases hOwner
    exact ⟨List.mem_of_getElem? hKeyword, hHash⟩
  · rintro ⟨hKeyword, hHash⟩
    obtain ⟨index, hIndex⟩ := List.getElem?_of_mem hKeyword
    have hSlot := (perfect.slot_iff hash index).2 ⟨keyword, hIndex, hHash⟩
    exact ⟨index, Option.join_eq_some_iff.2 hSlot, hIndex⟩

/-- No keyword hashes past the last slot. -/
theorem hashSum_le_maxHash (perfect : table.Perfect) {keyword : Keyword}
    (h : keyword ∈ table.keywords) : table.hashSum keyword.bytes ≤ table.maxHash := by
  obtain ⟨index, hIndex⟩ := List.getElem?_of_mem h
  have hSlot := (perfect.slot_iff _ index).2 ⟨keyword, hIndex, rfl⟩
  obtain ⟨inside, _⟩ := Array.getElem?_eq_some_iff.1 hSlot
  exact Nat.le_sub_one_of_lt inside

/-- A look-up finds the keyword with the text of the word, if there is one. A word without a keyword is
    turned away by its length, by its hash, by an empty slot or by the text in the slot. -/
theorem lookup_eq (perfect : table.Perfect) {word : String}
    (sum_lt : table.hashSum (Text.bytes word) < wordLimit) :
    table.lookup word = .ok (Keyword.find? table.keywords word) := by
  rw [perfect.consistent.lookup_eq_ok sum_lt]
  apply congrArg Except.ok
  apply Option.ext
  intro keyword
  rw [Keyword.find?_eq_some_iff perfect.nodup]
  split
  · rw [Option.filter_eq_some_iff, decide_eq_true_iff, perfect.slotKeyword?_eq_some_iff]
    constructor
    · rintro ⟨⟨hKeyword, _⟩, hText⟩
      exact ⟨hKeyword, hText⟩
    · rintro ⟨hKeyword, rfl⟩
      exact ⟨⟨hKeyword, rfl⟩, rfl⟩
  · next outside =>
      constructor
      · intro h
        cases h
      · rintro ⟨hKeyword, rfl⟩
        exact absurd ⟨perfect.hasLength keyword hKeyword, perfect.hashSum_le_maxHash hKeyword⟩ outside

/-- Exactly the keywords of the table are found, whatever the hash of the word is, if the hashes of the
    keywords are machine words. -/
theorem lookup_eq_some_iff (perfect : table.Perfect)
    (sum_lt : ∀ keyword ∈ table.keywords, table.hashSum keyword.bytes < wordLimit) {word : String}
    {keyword : Keyword} : table.lookup word = .ok (some keyword)
      ↔ Keyword.find? table.keywords word = some keyword := by
  constructor
  · intro found
    have word_lt : table.hashSum (Text.bytes word) < wordLimit := by
      rw [lookup] at found
      split at found
      · cases hHash : table.hash (Text.bytes word) with
        | error fault =>
            rw [hHash] at found
            cases found
        | ok hash => exact sum_lt_of_hash hHash
      · cases found
    rw [perfect.lookup_eq word_lt] at found
    injection found
  · intro found
    obtain ⟨member, rfl⟩ := (Keyword.find?_eq_some_iff perfect.nodup).1 found
    rw [perfect.lookup_eq (sum_lt keyword member), found]

end Perfect

/-- Look-ups in a built table answer like a scan of the keyword list, for every word whose hash is a
    machine word. -/
theorem lookup_eq_find? {keywords : List Keyword} {maxTries : Nat} {table : Table}
    (built : build keywords maxTries = .ok table) (word : String)
    (sum_lt : table.hashSum (Text.bytes word) < wordLimit) :
    table.lookup word = .ok (Keyword.find? keywords word) := by
  obtain ⟨rfl, perfect⟩ := perfect_of_build built
  exact perfect.lookup_eq sum_lt

/-- The word `int` is found in the table of three words although `in` is one of them, too. -/
theorem lookup_reserved_int :
    build reservedWords 100 = .ok reservedTable
      ∧ reservedTable.hashSum (Text.bytes "int") < wordLimit
      ∧ reservedTable.lookup "int" = .ok (Keyword.find? reservedWords "int") :=
  have sum_lt : reservedTable.hashSum (Text.bytes "int") < wordLimit := by decide +kernel
  ⟨build_reserved, sum_lt, lookup_eq_find? build_reserved "int" sum_lt⟩

end Table

end KeywordHash
