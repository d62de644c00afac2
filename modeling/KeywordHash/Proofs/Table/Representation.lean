/-
Module: KeywordHash.Proofs.Table.Representation
Layer: Proofs
Purpose: What is in a table that was built (`Table.Represents`), field by field: the slots are those of the
  keyword hashes and end with the greatest of them, the word lengths are those of the shortest and the
  longest keyword, the offsets are within these, and the characters without a value are those that no
  keyword has at an offset. The hashes are the ones that look-ups take.
Imports: KeywordHash.Proofs.Table.Perfect, Mathlib.Data.List.Nodup
Trusted boundary: none
Main exports: Table.Represents, Table.represents_of_build
Open obligations: none
-/
import KeywordHash.Proofs.Table.Perfect
import Mathlib.Data.List.Nodup

namespace KeywordHash

/-- The table holds the keywords in the way in which look-ups, documents and programs rely on it. -/
structure Table.Represents (table : Table) (keywords : List Keyword) : Prop where
  keywords_eq : table.keywords = keywords
  /-- Hashes are distinct from position to position. -/
  hash_nodup : (keywords.map fun keyword => table.hashSum keyword.bytes).Nodup
  /-- The sums are what look-ups hash the keywords to. A sum is a machine word if the keyword has fewer
      than 2³² bytes, and also if there are no more slots than machine words. -/
  hash_eq : ∀ keyword ∈ keywords, keyword.length < 2 ^ 32 ∨ table.slots.size ≤ wordLimit →
    table.hash keyword.bytes = .ok (table.hashSum keyword.bytes)
  slot_iff : ∀ hash index, table.slots[hash]? = some (some index) ↔
    ∃ keyword, keywords[index]? = some keyword ∧ table.hashSum keyword.bytes = hash
  /-- There are as many slots as it takes for the greatest hash. -/
  slots_size : ∃ greatest, (keywords.map fun keyword => table.hashSum keyword.bytes).max? = some greatest
    ∧ table.slots.size = greatest + 1
  last_filled : ∃ index, table.slots.back? = some (some index)
  minWordLength_eq : (keywords.map Keyword.length).min? = some table.minWordLength
  maxWordLength_eq : (keywords.map Keyword.length).max? = some table.maxWordLength
  head_lt : ∀ offset ∈ table.signature.offsets.head?, offset < table.minWordLength
  all_lt : ∀ offset ∈ table.signature.offsets, offset < table.maxWordLength
  /-- A character has no value if and only if no keyword has it at an offset. -/
  unused_iff : ∀ c : UInt8, c.toNat < 128 → (table.values.get c = -1 ↔
    ∀ keyword ∈ keywords, ∀ offset ∈ table.signature.offsets, keyword.bytes[offset]? ≠ some c)
  value_range : ∀ c : UInt8, table.values.get c ≠ -1 →
    0 ≤ table.values.get c ∧ table.values.get c ≤ table.maxHash

namespace Table

section

variable {keywords : List Keyword} {found : Found}
  (assigned : Assigned (found.signature.samples keywords) found.values found.table)

include assigned

/-- No keyword has a character at an offset if and only if the character has no value. -/
theorem unused_iff_ofFound (c : UInt8) : found.values.get c = unused ↔
    ∀ keyword ∈ keywords, ∀ offset ∈ found.signature.offsets, keyword.bytes[offset]? ≠ some c := by
  constructor
  · intro isUnused keyword hKeyword offset hOffset hc
    have sampled := Signature.mem_realize_iff.2 ⟨offset, hOffset, hc⟩
    have nonneg := (assigned.sampled _ (mem_samples _ hKeyword) c sampled).1
    rw [isUnused] at nonneg
    exact absurd nonneg (by decide)
  · intro absent
    apply assigned.unsampled
    intro sample hSample hc
    obtain ⟨keyword, hKeyword, rfl⟩ := List.mem_map.1 hSample
    obtain ⟨offset, hOffset, hc⟩ := Signature.mem_realize_iff.1 hc
    exact absent keyword hKeyword offset hOffset hc

/-- Keywords of fewer than 2³² bytes hash to machine words. -/
theorem hashSum_ofFound_lt {keyword : Keyword} (hKeyword : keyword ∈ keywords)
    (length_lt : keyword.length < 2 ^ 32) :
    (ofFound keywords found).hashSum keyword.bytes < wordLimit := by
  have sum_lt : (ofFound keywords found).hashSum keyword.bytes < 2 ^ 63 := by
    apply hashSum_lt
    · rwa [Keyword.bytes, Text.length_bytes]
    · intro c hc
      obtain ⟨nonneg, value_le⟩ := assigned.sampled _ (mem_samples _ hKeyword) c hc
      have value_eq : ((ofFound keywords found).value c : Int) = found.values.get c :=
        value_of_nonneg nonneg (Int.lt_of_le_of_lt value_le (by decide))
      rw [maxValue] at value_le
      omega
  exact Nat.lt_trans sum_lt (by decide)

end

section

variable {keywords : List Keyword} {found : Found} (perfect : (ofFound keywords found).Perfect)

include perfect

/-- Each position of the list has a hash of its own, because the slot of a hash names one position. -/
theorem nodup_hashes_ofFound :
    (keywords.map fun keyword => (ofFound keywords found).hashSum keyword.bytes).Nodup := by
  rw [List.nodup_iff_getElem?_ne_getElem?]
  intro i j i_lt j_lt same
  rw [List.length_map] at j_lt
  rw [List.getElem?_map, List.getElem?_map, List.getElem?_eq_getElem j_lt,
    List.getElem?_eq_getElem (Nat.lt_trans i_lt j_lt), Option.map_some, Option.map_some,
    Option.some_inj] at same
  have slot_i := (perfect.slot_iff _ i).2
    ⟨keywords[i], List.getElem?_eq_getElem (Nat.lt_trans i_lt j_lt), rfl⟩
  have slot_j := (perfect.slot_iff _ j).2 ⟨keywords[j], List.getElem?_eq_getElem j_lt, rfl⟩
  rw [same, slot_j] at slot_i
  injection slot_i with slot_i
  injection slot_i with j_eq
  exact Nat.ne_of_gt i_lt j_eq

variable (ne_nil : keywords ≠ [])

include ne_nil

/-- The slot of the greatest hash is filled. -/
theorem slot_maxHash_ofFound :
    ∃ index, (ofFound keywords found).slots[found.table.maxHash]? = some (some index) := by
  obtain ⟨first, hFirst⟩ := List.exists_mem_of_ne_nil _ ne_nil
  obtain ⟨index, hIndex⟩ := List.getElem?_of_mem hFirst
  have owned := slots_ofFound.1 ((perfect.slot_iff _ index).2 ⟨first, hIndex, rfl⟩)
  obtain ⟨owner, hOwner⟩ := HashTable.exists_owner_maxHash owned
  exact ⟨owner, slots_ofFound.2 hOwner⟩

/-- The greatest hash in the table of the attempt is the greatest hash of a keyword. -/
theorem max?_hashes_ofFound :
    (keywords.map fun keyword => (ofFound keywords found).hashSum keyword.bytes).max?
      = some found.table.maxHash := by
  rw [List.max?_eq_some_iff]
  constructor
  · obtain ⟨index, hSlot⟩ := slot_maxHash_ofFound perfect ne_nil
    obtain ⟨keyword, hKeyword, hash_eq⟩ := (perfect.slot_iff _ index).1 hSlot
    exact List.mem_map.2 ⟨keyword, List.mem_of_getElem? hKeyword, hash_eq⟩
  · intro hash hHash
    obtain ⟨keyword, hKeyword, rfl⟩ := List.mem_map.1 hHash
    obtain ⟨index, hIndex⟩ := List.getElem?_of_mem hKeyword
    exact HashTable.le_maxHash
      (slots_ofFound.1 ((perfect.slot_iff _ index).2 ⟨keyword, hIndex, rfl⟩))

end

/-- Whatever table is built for a keyword list represents the list. -/
theorem represents_of_build {keywords : List Keyword} {maxTries : Nat} {table : Table}
    (built : build keywords maxTries = .ok table) : table.Represents keywords := by
  obtain ⟨valid, found, rfl, hAssign, bounds, shortest_eq, longest_eq, admitted⟩ := build_eq_ok built
  have assigned := assigned_of_assign hAssign
  have perfect := perfect_ofFound assigned valid.nodup
  obtain ⟨min_eq, max_eq⟩ := Keyword.lengths_eq valid.ne_nil
  have slots_size : (ofFound keywords found).slots.size = found.table.maxHash + 1 := by
    simp [ofFound]
  constructor
  case keywords_eq => rfl
  case hash_nodup => exact nodup_hashes_ofFound perfect
  case hash_eq =>
    intro keyword hKeyword bounded
    apply hash_eq_ok
    rcases bounded with length_lt | size_le
    · exact hashSum_ofFound_lt assigned hKeyword length_lt
    · have greatest := List.max?_eq_some_iff.1 (max?_hashes_ofFound perfect valid.ne_nil)
      have hash_le := greatest.2 _ (List.mem_map_of_mem hKeyword)
      rw [slots_size] at size_le
      exact Nat.lt_of_lt_of_le (Nat.lt_succ_of_le hash_le) size_le
  case slot_iff => exact perfect.slot_iff
  case slots_size => exact ⟨_, max?_hashes_ofFound perfect valid.ne_nil, slots_size⟩
  case last_filled =>
    obtain ⟨index, hSlot⟩ := slot_maxHash_ofFound perfect valid.ne_nil
    refine ⟨index, ?_⟩
    rw [Array.back?_eq_getElem?, slots_size, Nat.add_sub_cancel, hSlot]
  case minWordLength_eq => exact min_eq
  case maxWordLength_eq => exact max_eq
  case head_lt =>
    intro offset hOffset
    exact Nat.lt_of_lt_of_eq (admitted.head_lt offset hOffset) shortest_eq
  case all_lt =>
    intro offset hOffset
    exact Nat.lt_of_lt_of_eq (admitted.all_lt offset hOffset) longest_eq
  case unused_iff =>
    intro c _
    exact unused_iff_ofFound assigned c
  case value_range =>
    intro c used
    exact (value_range_ofFound assigned c).resolve_left used

/-- The table of three words represents them. -/
theorem represents_reserved :
    build reservedWords 100 = .ok reservedTable ∧ reservedTable.Represents reservedWords :=
  ⟨build_reserved, represents_of_build build_reserved⟩

end Table

end KeywordHash
