/-
Module: KeywordHash.Proofs.Table.Consistent
Layer: Proofs
Purpose: What every table has that comes from a build or from a document (`Table.Consistent`): the slots
  hold each keyword index once and nothing else, and every value is unused or a possible hash. A
  document is checked for exactly this (`Document.inconsistency?_eq_none_iff`), and a built table has it
  because its keywords hash to slots of their own. Slots of a consistent table can always be read.
Imports: KeywordHash.Proofs.Table.Perfect, KeywordHash.Table.Document
Trusted boundary: none
Main exports: Table.Consistent, Document.inconsistency?_eq_none_iff, Table.Perfect.consistent,
  Document.consistent_of_toTable, Table.Obtained, Table.Obtained.consistent, Table.mem_of_lookup,
  Table.slotKeyword?, Table.slot_eq_ok, Table.lookup_eq_ok
Open obligations: none
-/
import KeywordHash.Proofs.Table.Perfect
import KeywordHash.Table.Document

namespace KeywordHash

/-- The slots hold each keyword index once and nothing else, and the values are unused or possible
    hashes. -/
structure Table.Consistent (table : Table) : Prop where
  index_lt : ∀ index, some index ∈ table.slots → index < table.keywords.length
  count_eq_one : ∀ index < table.keywords.length, table.slots.count (some index) = 1
  value_range : ∀ value ∈ table.values.cells, value = unused ∨ 0 ≤ value ∧ value ≤ table.maxHash

/-- Consistency is told by looking through the slots, the keyword indices and the values. -/
instance (table : Table) : Decidable table.Consistent :=
  decidable_of_iff
    ((∀ slot ∈ table.slots, ∀ index ∈ slot, index < table.keywords.length)
      ∧ (∀ index < table.keywords.length, table.slots.count (some index) = 1)
      ∧ ∀ value ∈ table.values.cells, value = unused ∨ 0 ≤ value ∧ value ≤ table.maxHash)
    ⟨fun ⟨inside, counts, values⟩ =>
        { index_lt := fun index hIndex => inside _ hIndex index rfl
          count_eq_one := counts
          value_range := values },
      fun consistent =>
        ⟨fun _ hSlot index hIndex => consistent.index_lt index (hIndex ▸ hSlot),
          consistent.count_eq_one, consistent.value_range⟩⟩

/-! ### What is checked in a document -/

namespace Document

variable {document : Document}

theorem strayIndex?_eq_none_iff : document.strayIndex? = none ↔
    ∀ index, some index ∈ document.slots → index < document.keywords.length := by
  rw [strayIndex?, List.find?_eq_none]
  simp [List.mem_filterMap]

theorem misplacedKeyword?_eq_none_iff : document.misplacedKeyword? = none ↔
    ∀ index < document.keywords.length, document.slots.count (some index) = 1 := by
  rw [misplacedKeyword?, List.find?_eq_none]
  constructor
  · intro h index index_lt
    have := h (document.keywords[index], index)
      (List.mk_mem_zipIdx_iff_getElem?.2 (List.getElem?_eq_getElem index_lt))
    exact of_not_not fun differs => this (decide_eq_true differs)
  · rintro h ⟨keyword, index⟩ hMember
    obtain ⟨index_lt, _⟩ := List.getElem?_eq_some_iff.1 (List.mk_mem_zipIdx_iff_getElem?.1 hMember)
    intro differs
    exact of_decide_eq_true differs (h index index_lt)

theorem strayValue?_eq_none_iff : document.strayValue? = none ↔
    ∀ value ∈ document.values, value = unused ∨ 0 ≤ value ∧ value ≤ document.maxHash := by
  rw [strayValue?, List.find?_eq_none]
  constructor
  · intro h value hValue
    obtain ⟨c, hc⟩ := List.getElem?_of_mem hValue
    simpa [or_iff_not_imp_left] using h (value, c) (List.mk_mem_zipIdx_iff_getElem?.2 hc)
  · rintro h ⟨value, c⟩ hMember
    simpa [or_iff_not_imp_left] using
      h value (List.mem_of_getElem? (List.mk_mem_zipIdx_iff_getElem?.1 hMember))

/-- There is no inconsistency if each of the three checks finds none. -/
theorem inconsistency?_eq_none_iff : document.inconsistency? = none ↔
    (∀ index, some index ∈ document.slots → index < document.keywords.length)
      ∧ (∀ index < document.keywords.length, document.slots.count (some index) = 1)
      ∧ ∀ value ∈ document.values, value = unused ∨ 0 ≤ value ∧ value ≤ document.maxHash := by
  rw [← strayIndex?_eq_none_iff, ← misplacedKeyword?_eq_none_iff, ← strayValue?_eq_none_iff,
    inconsistency?]
  cases document.strayIndex? with
  | some index => simp
  | none =>
      cases document.misplacedKeyword? with
      | some misplaced => simp
      | none =>
          cases document.strayValue? with
          | some stray => simp
          | none => simp

/-- Only consistent tables are made from documents. -/
theorem consistent_of_toTable {table : Table} (h : document.toTable = .ok table) :
    table.Consistent := by
  rw [toTable] at h
  split at h
  · cases h
  · split at h
    · cases h
    · next hNone =>
        obtain ⟨index_lt, count_eq_one, value_range⟩ := inconsistency?_eq_none_iff.1 hNone
        cases h
        constructor
        · intro index hIndex
          exact index_lt index (List.mem_toArray.1 hIndex)
        · intro index index_lt
          rw [List.count_toArray]
          exact count_eq_one index index_lt
        · intro value hValue
          obtain ⟨c, c_lt, rfl⟩ := Vector.getElem_of_mem hValue
          rw [AssociatedValues.ofList, Vector.getElem_ofFn]
          cases hCell : document.values[c]? with
          | none => exact Or.inl rfl
          | some value => exact value_range value (List.mem_of_getElem? hCell)

end Document

/-! ### Where tables come from -/

/-- An element that stands at one position only is counted once. -/
theorem count_eq_one_of_position {α : Type} [BEq α] [LawfulBEq α] {list : List α} {a : α}
    {position : Nat} (h : ∀ i, list[i]? = some a ↔ i = position) : list.count a = 1 := by
  obtain ⟨position_lt, hPosition⟩ := List.getElem?_eq_some_iff.1 ((h position).2 rfl)
  have split := List.take_append_drop position list
  rw [List.drop_eq_getElem_cons position_lt, hPosition] at split
  have before : a ∉ list.take position := by
    intro hMember
    obtain ⟨i, hi⟩ := List.getElem?_of_mem hMember
    rw [List.getElem?_take] at hi
    split at hi
    · next i_lt => exact Nat.ne_of_lt i_lt ((h i).1 hi)
    · cases hi
  have behind : a ∉ list.drop (position + 1) := by
    intro hMember
    obtain ⟨i, hi⟩ := List.getElem?_of_mem hMember
    rw [List.getElem?_drop] at hi
    have := (h _).1 hi
    omega
  rw [← split, List.count_append, List.count_cons_self, List.count_eq_zero.2 before,
    List.count_eq_zero.2 behind]

namespace Table

variable {table : Table}

/-- A table that gives every keyword a slot of its own is consistent. -/
theorem Perfect.consistent (perfect : table.Perfect) : table.Consistent where
  index_lt := by
    intro index hIndex
    obtain ⟨hash, hHash⟩ := Array.getElem?_of_mem hIndex
    obtain ⟨keyword, hKeyword, _⟩ := (perfect.slot_iff hash index).1 hHash
    exact (List.getElem?_eq_some_iff.1 hKeyword).1
  count_eq_one := by
    intro index index_lt
    have hKeyword : table.keywords[index]? = some table.keywords[index] :=
      List.getElem?_eq_getElem index_lt
    have onlyThere : ∀ hash, table.slots.toList[hash]? = some (some index)
        ↔ hash = table.hashSum table.keywords[index].bytes := by
      intro hash
      rw [Array.getElem?_toList, perfect.slot_iff]
      constructor
      · rintro ⟨keyword, hOther, rfl⟩
        rw [hKeyword] at hOther
        cases hOther
        rfl
      · rintro rfl
        exact ⟨_, hKeyword, rfl⟩
    rw [← Array.count_toList]
    exact count_eq_one_of_position onlyThere
  value_range := by
    intro value hValue
    obtain ⟨c, rfl⟩ := AssociatedValues.exists_get_eq hValue
    exact perfect.value_range c

/-- The two ways to a table: a build for a keyword list, or a document. -/
inductive Obtained (table : Table) : Prop where
  | built (keywords : List Keyword) (maxTries : Nat) (h : build keywords maxTries = .ok table)
  | loaded (bytes : List UInt8) (h : load bytes = .ok table)

/-- What is loaded is the table of a document that was read. -/
theorem load_eq_ok {bytes : List UInt8} (h : load bytes = .ok table) :
    ∃ document, Document.read bytes = .ok document ∧ document.toTable = .ok table := by
  rw [load] at h
  split at h
  · cases h
  · next document hRead =>
      cases hTable : document.toTable with
      | error inconsistency =>
          rw [hTable] at h
          cases h
      | ok made =>
          rw [hTable] at h
          cases h
          exact ⟨document, hRead, hTable⟩

/-- Every table that a build or a document gives is consistent. -/
theorem Obtained.consistent (obtained : table.Obtained) : table.Consistent := by
  cases obtained with
  | built keywords maxTries h => exact (perfect_of_build h).2.consistent
  | loaded bytes h =>
      obtain ⟨document, _, hTable⟩ := load_eq_ok h
      exact Document.consistent_of_toTable hTable

/-! ### Reading a table -/

/-- What stands in a slot is a keyword of the table. -/
theorem mem_of_slot {hash : Nat} {keyword : Keyword} (h : table.slot hash = .ok (some keyword)) :
    keyword ∈ table.keywords := by
  rw [slot] at h
  split at h
  · cases h
  · cases h
  · split at h
    · cases h
    · next hKeyword =>
        cases h
        exact List.mem_of_getElem? hKeyword

/-- What is found is a keyword with the text of the word, whatever the table holds. -/
theorem mem_of_lookup {word : String} {keyword : Keyword}
    (h : table.lookup word = .ok (some keyword)) : keyword ∈ table.keywords ∧ keyword.text = word := by
  rw [lookup] at h
  split at h
  · split at h
    · cases h
    · split at h
      · obtain ⟨content, hSlot, hContent⟩ := exists_ok_of_map h
        obtain ⟨rfl, hText⟩ := Option.filter_eq_some_iff.1 hContent
        exact ⟨mem_of_slot hSlot, of_decide_eq_true hText⟩
      · cases h
  · cases h

/-- The keyword in the slot of a hash, where the index of an absent keyword reads as an empty slot. -/
def slotKeyword? (table : Table) (hash : Nat) : Option Keyword :=
  table.slots[hash]?.join.bind (table.keywords[·]?)

theorem mem_of_slotKeyword? {hash : Nat} {keyword : Keyword}
    (h : table.slotKeyword? hash = some keyword) : keyword ∈ table.keywords := by
  obtain ⟨index, _, hKeyword⟩ := Option.bind_eq_some_iff.1 h
  exact List.mem_of_getElem? hKeyword

/-- There is no keyword behind the last slot. -/
theorem slotKeyword?_of_gt {hash : Nat} (h : table.maxHash < hash) :
    table.slotKeyword? hash = none := by
  have outside : table.slots.size ≤ hash := by
    rw [maxHash] at h
    omega
  rw [slotKeyword?, Array.getElem?_eq_none outside]
  rfl

section

variable (index_lt : ∀ index, some index ∈ table.slots → index < table.keywords.length)

include index_lt in
/-- Slots can be read if they hold no index past the keyword list. -/
theorem slot_eq_ok (hash : Nat) : table.slot hash = .ok (table.slotKeyword? hash) := by
  rw [slot, slotKeyword?]
  cases hSlot : table.slots[hash]? with
  | none => rfl
  | some content =>
      cases content with
      | none => rfl
      | some index =>
          have index_lt := index_lt index (Array.mem_of_getElem? hSlot)
          simp [List.getElem?_eq_getElem index_lt]

include index_lt in
/-- What a look-up comes to if all slots can be read. Only words of the lengths of the table are
    hashed. -/
theorem lookup_eq_ok {word : String}
    (sum_lt : table.hasLength word.utf8ByteSize → table.hashSum (Text.bytes word) < wordLimit) :
    table.lookup word = .ok
      (if table.hasLength word.utf8ByteSize ∧ table.hashSum (Text.bytes word) ≤ table.maxHash then
        (table.slotKeyword? (table.hashSum (Text.bytes word))).filter (·.text = word)
      else none) := by
  rw [lookup]
  by_cases hLength : table.hasLength word.utf8ByteSize = true
  · rw [if_pos hLength, hash_eq_ok (sum_lt hLength)]
    by_cases hHash : table.hashSum (Text.bytes word) ≤ table.maxHash
    · rw [if_pos ⟨hLength, hHash⟩]
      simp only [if_pos hHash, slot_eq_ok index_lt]
      rfl
    · rw [if_neg (fun h => hHash h.2)]
      simp only [if_neg hHash]
  · rw [if_neg hLength, if_neg (fun h => hLength h.1)]

end

namespace Consistent

/-- The slots of a consistent table can be read. -/
theorem slot_eq_ok (consistent : table.Consistent) (hash : Nat) :
    table.slot hash = .ok (table.slotKeyword? hash) :=
  Table.slot_eq_ok consistent.index_lt hash

/-- What a look-up in a consistent table comes to. -/
theorem lookup_eq_ok (consistent : table.Consistent) {word : String}
    (sum_lt : table.hashSum (Text.bytes word) < wordLimit) :
    table.lookup word = .ok
      (if table.hasLength word.utf8ByteSize ∧ table.hashSum (Text.bytes word) ≤ table.maxHash then
        (table.slotKeyword? (table.hashSum (Text.bytes word))).filter (·.text = word)
      else none) :=
  Table.lookup_eq_ok consistent.index_lt fun _ => sum_lt

/-- The value of every byte is unused or a possible hash, also past ASCII. -/
theorem get_range (consistent : table.Consistent) (c : UInt8) :
    table.values.get c = unused ∨ 0 ≤ table.values.get c ∧ table.values.get c ≤ table.maxHash := by
  rcases Nat.lt_or_ge c.toNat asciiCount with ascii | past
  · apply consistent.value_range
    rw [AssociatedValues.get_of_lt _ ascii]
    exact Vector.getElem_mem ascii
  · exact Or.inl (AssociatedValues.get_of_le _ past)

/-- A value counts as it is in a consistent table, or as the sentinel. -/
theorem value_le_sentinel (consistent : table.Consistent) (c : UInt8) :
    table.value c ≤ table.sentinel :=
  Table.value_le_sentinel (consistent.get_range c)

end Consistent

end Table

end KeywordHash
