/-
Module: KeywordHash.Proofs.Table.Document
Layer: Proofs
Purpose: What a table is written as is read back as its fields (`Document.read_documentText`), and the
  fields make the table again if it is consistent, and no table if it is not
  (`Table.load_documentText`). All that is asked of the table is that its numbers are those of the
  machine.
Imports: KeywordHash.Proofs.Json.Brackets, KeywordHash.Proofs.Table.Consistent
Trusted boundary: none
Main exports: Table.FitsMachine, Document.ofTable, Document.read_documentText,
  Document.inconsistency?_ofTable, Table.load_documentText
Open obligations: none
-/
import KeywordHash.Proofs.Json.Brackets
import KeywordHash.Proofs.Table.Consistent

namespace KeywordHash

/-- Every number of the table is one of the machine type that it is kept in: a machine word, or 32 bits
    with a sign for a value. -/
structure Table.FitsMachine (table : Table) : Prop where
  line_lt : ∀ keyword ∈ table.keywords, keyword.line < wordLimit
  offset_lt : ∀ offset ∈ table.signature.offsets, offset < wordLimit
  value_range : ∀ value ∈ table.values.cells, -2 ^ 31 ≤ value ∧ value < 2 ^ 31
  index_lt : ∀ index, some index ∈ table.slots → index < wordLimit
  minWordLength_lt : table.minWordLength < wordLimit
  maxWordLength_lt : table.maxWordLength < wordLimit
  signaturesTried_lt : table.stats.signaturesTried < wordLimit
  adjustments_lt : table.stats.adjustments < wordLimit

/-- The numbers of a table are finitely many, so each of them can be compared with its bound. -/
instance (table : Table) : Decidable table.FitsMachine :=
  decidable_of_iff
    ((∀ keyword ∈ table.keywords, keyword.line < wordLimit)
      ∧ (∀ offset ∈ table.signature.offsets, offset < wordLimit)
      ∧ (∀ value ∈ table.values.cells, -2 ^ 31 ≤ value ∧ value < 2 ^ 31)
      ∧ (∀ slot ∈ table.slots, ∀ index ∈ slot, index < wordLimit)
      ∧ table.minWordLength < wordLimit ∧ table.maxWordLength < wordLimit
      ∧ table.stats.signaturesTried < wordLimit ∧ table.stats.adjustments < wordLimit)
    ⟨fun ⟨lines, offsets, values, indices, least, greatest, tried, adjustments⟩ =>
        { line_lt := lines
          offset_lt := offsets
          value_range := values
          index_lt := fun index hIndex => indices _ hIndex index rfl
          minWordLength_lt := least
          maxWordLength_lt := greatest
          signaturesTried_lt := tried
          adjustments_lt := adjustments },
      fun fits =>
        ⟨fits.line_lt, fits.offset_lt, fits.value_range,
          fun _ hSlot index hIndex => fits.index_lt index (hIndex ▸ hSlot),
          fits.minWordLength_lt, fits.maxWordLength_lt, fits.signaturesTried_lt,
          fits.adjustments_lt⟩⟩

namespace Document

open Json

/-! ### Reading the members -/

/-- A written value is kept when it is read behind its key for the first time. -/
theorem accepts_kept {α σ : Type} {member : String → σ → Reader σ} {key written : String} {state : σ}
    {item : Reader α} {store : α → σ} (keeps : member key state = keep none item store) {a : α}
    (reads : Reads item written a) : Accepts member key written state (store a) := by
  intro rest delimited
  have blank : Blank [code ' '] := by
    intro b hb
    rw [List.mem_singleton.1 hb]
    decide
  have hItem : item (code ' ' :: (Text.bytes written ++ rest)) = .ok (a, rest) :=
    (reads.skips [code ' '] _ blank).trans (reads.read rest delimited)
  rw [keeps, keep, once, punctuation_cons (by decide), ok_bind, hItem, ok_bind]
  rfl

/-- The members that a keyword is written as. -/
def keywordEntries (keyword : Keyword) : List (String × String) :=
  [("text", Layout.text keyword.text), ("payload", Layout.text keyword.payload),
    ("line", Layout.number keyword.line)]

theorem keyword_documentText (keyword : Keyword) (depth : Nat) :
    keyword.documentText depth = Layout.object depth (keywordEntries keyword) := rfl

/-- A keyword is read back from its members. -/
theorem reads_keyword {keyword : Keyword} (line_lt : keyword.line < wordLimit) {limit : Nat}
    (enough : 3 < limit) (depth : Nat) :
    Reads (record (keywordObject limit) keywordFields) (keyword.documentText depth) keyword := by
  have collects : Collects keywordMember {} (keywordEntries keyword)
      { text := some keyword.text, payload := some keyword.payload, line := some keyword.line } := by
    refine .cons (accepts_kept (by rw [keywordMember]) (reads_text keyword.text)) ?_
    refine .cons (accepts_kept (by rw [keywordMember]) (reads_text keyword.payload)) ?_
    refine .cons (accepts_kept (by rw [keywordMember]) (reads_natural line_lt)) ?_
    exact .nil _
  rw [keyword_documentText]
  apply reads_record
  intro rest
  rw [keywordObject, members, membersFrom_ahead collects enough, ok_bind]
  rfl

/-- The content of a slot is read back. An index never begins like the name of nothing. -/
theorem reads_slot {slot : Option Nat} (index_lt : ∀ index, slot = some index → index < wordLimit) :
    Reads (Json.optional natural) (slotText slot) slot := by
  have skips : SkipsBlanks (Json.optional natural) := skipsBlanks_of_peek _
  cases slot with
  | none =>
      have name : Text.bytes (slotText none) = [code 'n', code 'u', code 'l', code 'l'] := by decide
      refine ⟨skips, ⟨code 'n', _, name, by decide, by decide⟩, fun rest _ => ?_⟩
      rw [name, List.cons_append, Json.optional, peek_cons (by decide), ok_bind]
      rfl
  | some index =>
      have reads := reads_natural (index_lt index rfl)
      obtain ⟨b, tail, hBytes, b_solid, b_ne⟩ := reads.begins
      have b_digit : isDigit b := by
        obtain ⟨d, others, hDigits, _⟩ := digits_head index
        have same : b :: tail = d :: others :=
          hBytes.symm.trans ((bytes_number index).trans hDigits)
        cases same
        exact isDigit_of_mem_digits (hDigits ▸ List.mem_cons_self)
      have b_ne_n : b ≠ code 'n' := by
        rintro rfl
        exact absurd b_digit (by decide)
      refine ⟨skips, ⟨b, tail, hBytes, b_solid, b_ne⟩, fun rest delimited => ?_⟩
      have hRead := reads.read rest delimited
      rw [hBytes, List.cons_append] at hRead
      rw [slotText, hBytes, List.cons_append, Json.optional, peek_cons b_solid, ok_bind]
      simp only [if_neg b_ne_n]
      rw [hRead, ok_bind]
      rfl

/-! ### Reading the document -/

/-- The fields of a table. -/
def ofTable (table : Table) : Document where
  keywords := table.keywords
  offsets := table.signature.offsets
  values := table.values.cells.toList
  slots := table.slots.toList
  minWordLength := table.minWordLength
  maxWordLength := table.maxWordLength
  signaturesTried := table.stats.signaturesTried
  adjustments := table.stats.adjustments

section

variable {table : Table} {limit : Nat}

/-- All keywords are read back, since each of the numbers that bound the reading is below the length of
    what is read. -/
theorem reads_keywordList (fits : table.FitsMachine)
    (within : (Text.bytes (Layout.array 1 (table.keywords.map (·.documentText 2)))).length ≤ limit) :
    Reads (keywordList limit) (Layout.array 1 (table.keywords.map (·.documentText 2)))
      table.keywords := by
  have reads : ∀ keyword ∈ table.keywords,
      Reads (record (keywordObject limit) keywordFields) (keyword.documentText 2) keyword := by
    intro keyword hKeyword
    have members_lt : 3 < (Text.bytes (keyword.documentText 2)).length :=
      length_lt_object 2 (keywordEntries keyword)
    have keyword_le := length_item_le_array 1
      (List.mem_map_of_mem (f := fun keyword : Keyword => keyword.documentText 2) hKeyword)
    exact reads_keyword (fits.line_lt keyword hKeyword)
      (Nat.lt_of_lt_of_le members_lt (Nat.le_trans keyword_le within)) 2
  have enough := Nat.lt_of_lt_of_le (length_lt_array 1 _) within
  rw [List.length_map] at enough
  exact reads_elements reads enough 1

theorem reads_offsetList (fits : table.FitsMachine)
    (within : (Text.bytes (Layout.array 1
      (table.signature.offsets.map fun (offset : Nat) => Layout.number offset))).length ≤ limit) :
    Reads (offsetList limit)
      (Layout.array 1 (table.signature.offsets.map fun (offset : Nat) => Layout.number offset))
      table.signature.offsets := by
  have enough := Nat.lt_of_lt_of_le (length_lt_array 1 _) within
  rw [List.length_map] at enough
  exact reads_elements (fun offset hOffset => reads_natural (fits.offset_lt offset hOffset)) enough 1

theorem reads_valueList (fits : table.FitsMachine) :
    Reads valueList (Layout.array 1 (table.values.cells.toList.map Layout.number))
      table.values.cells.toList := by
  have reads : ∀ value ∈ table.values.cells.toList, Reads integer (Layout.number value) value := by
    intro value hValue
    obtain ⟨large, small⟩ := fits.value_range value (Vector.mem_toList_iff.1 hValue)
    exact reads_integer large small
  have hArray := reads_exactly reads 1
  rwa [Vector.length_toList] at hArray

theorem reads_slotList (fits : table.FitsMachine)
    (within : (Text.bytes (Layout.array 1 (table.slots.toList.map slotText))).length ≤ limit) :
    Reads (slotList limit) (Layout.array 1 (table.slots.toList.map slotText)) table.slots.toList := by
  have reads : ∀ slot ∈ table.slots.toList, Reads (Json.optional natural) (slotText slot) slot := by
    intro slot hSlot
    apply reads_slot
    rintro index rfl
    exact fits.index_lt index (Array.mem_toList_iff.1 hSlot)
  have enough := Nat.lt_of_lt_of_le (length_lt_array 1 _) within
  rw [List.length_map] at enough
  exact reads_elements reads enough 1

end

/-- The members that a table is written as. -/
def tableEntries (table : Table) : List (String × String) :=
  [("keywords", Layout.array 1 (table.keywords.map (·.documentText 2))),
    ("signature", Layout.array 1 (table.signature.offsets.map fun (offset : Nat) =>
      Layout.number offset)),
    ("asso_values", Layout.array 1 (table.values.cells.toList.map Layout.number)),
    ("slots", Layout.array 1 (table.slots.toList.map slotText)),
    ("min_word_length", Layout.number table.minWordLength),
    ("max_word_length", Layout.number table.maxWordLength),
    ("signatures_tried", Layout.number table.stats.signaturesTried),
    ("adjustments", Layout.number table.stats.adjustments)]

theorem table_documentText (table : Table) :
    table.documentText = Layout.object 0 (tableEntries table) := rfl

/-- All members of a table are read, each for the first time. -/
theorem collects_table {table : Table} (fits : table.FitsMachine) {limit : Nat}
    (within : ∀ key written, (key, written) ∈ tableEntries table →
      (Text.bytes written).length ≤ limit) :
    Collects (tableMember limit) {} (tableEntries table)
      { keywords := some table.keywords
        offsets := some table.signature.offsets
        values := some table.values.cells.toList
        slots := some table.slots.toList
        minWordLength := some table.minWordLength
        maxWordLength := some table.maxWordLength
        signaturesTried := some table.stats.signaturesTried
        adjustments := some table.stats.adjustments } := by
  have keywords_le := within _ _ (.head _)
  have offsets_le := within _ _ (.tail _ (.head _))
  have slots_le := within _ _ (.tail _ (.tail _ (.tail _ (.head _))))
  -- Each member is stored into a copy of the members before it, which is written out before the next.
  refine .cons (accepts_kept (by rw [tableMember]) (reads_keywordList fits keywords_le)) ?_
  dsimp only
  refine .cons (accepts_kept (by rw [tableMember]) (reads_offsetList fits offsets_le)) ?_
  dsimp only
  refine .cons (accepts_kept (by rw [tableMember]) (reads_valueList fits)) ?_
  dsimp only
  refine .cons (accepts_kept (by rw [tableMember]) (reads_slotList fits slots_le)) ?_
  dsimp only
  refine .cons (accepts_kept (by rw [tableMember]) (reads_natural fits.minWordLength_lt)) ?_
  dsimp only
  refine .cons (accepts_kept (by rw [tableMember]) (reads_natural fits.maxWordLength_lt)) ?_
  dsimp only
  refine .cons (accepts_kept (by rw [tableMember]) (reads_natural fits.signaturesTried_lt)) ?_
  dsimp only
  refine .cons (accepts_kept (by rw [tableMember]) (reads_natural fits.adjustments_lt)) ?_
  exact .nil _

/-- The fields of a table are read back from its document. -/
theorem read_documentText {table : Table} (fits : table.FitsMachine) :
    read (Text.bytes table.documentText) = .ok (ofTable table) := by
  have within : ∀ key written, (key, written) ∈ tableEntries table →
      (Text.bytes written).length ≤ (Text.bytes table.documentText).length :=
    fun key written => length_member_le_object 0
  have enough : (tableEntries table).length < (Text.bytes table.documentText).length :=
    length_lt_object 0 (tableEntries table)
  have reads : Reads (record (tableObject (Text.bytes table.documentText).length)
      (tableFields (Text.bytes table.documentText).length)) table.documentText (ofTable table) := by
    rw [table_documentText] at within enough ⊢
    apply reads_record
    intro rest
    rw [tableObject, members, membersFrom_ahead (collects_table fits within) enough, ok_bind]
    rfl
  have hRead := reads.read [] (fun b hb => by cases hb)
  rw [List.append_nil] at hRead
  rw [read, document, hRead, ok_bind]
  rfl

/-! ### From the fields to the table -/

/-- The fields of a table are checked for what makes it consistent. -/
theorem inconsistency?_ofTable {table : Table} :
    (ofTable table).inconsistency? = none ↔ table.Consistent := by
  rw [inconsistency?_eq_none_iff]
  constructor
  · rintro ⟨index_lt, count_eq_one, value_range⟩
    exact {
      index_lt := fun index hIndex => index_lt index (Array.mem_toList_iff.2 hIndex)
      count_eq_one := fun index hIndex => (Array.count_toList).symm.trans (count_eq_one index hIndex)
      value_range := fun value hValue => value_range value (Vector.mem_toList_iff.2 hValue) }
  · rintro ⟨index_lt, count_eq_one, value_range⟩
    refine ⟨?_, ?_, ?_⟩
    · intro index hIndex
      exact index_lt index (Array.mem_toList_iff.1 hIndex)
    · intro index hIndex
      exact (Array.count_toList).trans (count_eq_one index hIndex)
    · intro value hValue
      exact value_range value (Vector.mem_toList_iff.1 hValue)

theorem ofOffsets?_offsets (signature : Signature) :
    Signature.ofOffsets? signature.offsets = some signature :=
  dif_pos ⟨signature.ne_nil, signature.increasing⟩

theorem ofList_toList (values : AssociatedValues) : .ofList values.cells.toList = values := by
  have cells_eq : (Vector.ofFn fun c => values.cells.toList[c.val]?.getD unused) = values.cells := by
    apply Vector.ext
    intro c c_lt
    rw [Vector.getElem_ofFn, Vector.getElem?_toList, Vector.getElem?_eq_getElem c_lt]
    rfl
  exact congrArg AssociatedValues.mk cells_eq

/-- The fields of a consistent table make the table. -/
theorem toTable_of_consistent {table : Table} (consistent : table.Consistent) :
    (ofTable table).toTable = .ok table := by
  rw [toTable, inconsistency?_ofTable.2 consistent, ofTable]
  simp only [ofOffsets?_offsets, ofList_toList, Array.toArray_toList]

/-- The fields of any other table make none. -/
theorem toTable_of_not_consistent {table : Table} (inconsistent : ¬ table.Consistent) :
    ∃ inconsistency, (ofTable table).toTable = .error inconsistency := by
  cases hFound : (ofTable table).inconsistency? with
  | none => exact absurd (inconsistency?_ofTable.1 hFound) inconsistent
  | some inconsistency =>
      refine ⟨inconsistency, ?_⟩
      rw [toTable, hFound, ofTable]
      simp only [ofOffsets?_offsets]

end Document

namespace Table

/-- What a table is written as is loaded as the same table if the table is consistent, and is turned
    down as an inconsistent table, not as a document, if it is not. A table that was built is loaded as
    it is. -/
theorem load_documentText {table : Table} (fits : table.FitsMachine) :
    (table.Consistent → load (Text.bytes table.documentText) = .ok table)
      ∧ (¬ table.Consistent → ∃ inconsistency,
          load (Text.bytes table.documentText) = .error (.invalidTable inconsistency))
      ∧ ∀ keywords maxTries, build keywords maxTries = .ok table →
          load (Text.bytes table.documentText) = .ok table := by
  have hLoad : load (Text.bytes table.documentText)
      = (Document.ofTable table).toTable.mapError .invalidTable := by
    rw [load, Document.read_documentText fits]
  have reloads : table.Consistent → load (Text.bytes table.documentText) = .ok table := by
    intro consistent
    rw [hLoad, Document.toTable_of_consistent consistent]
    rfl
  refine ⟨reloads, ?_, ?_⟩
  · intro inconsistent
    obtain ⟨inconsistency, hError⟩ := Document.toTable_of_not_consistent inconsistent
    refine ⟨inconsistency, ?_⟩
    rw [hLoad, hError]
    rfl
  · intro keywords maxTries built
    exact reloads (perfect_of_build built).2.consistent

/-- The table of three words is loaded as it is. -/
theorem load_documentText_reserved :
    reservedTable.FitsMachine ∧ build reservedWords 100 = .ok reservedTable
      ∧ load (Text.bytes reservedTable.documentText) = .ok reservedTable := by
  have fits : reservedTable.FitsMachine := {
    line_lt := by decide
    offset_lt := by decide
    value_range := by decide +kernel
    index_lt := by
      intro index hIndex
      have index_lt := (perfect_of_build build_reserved).2.consistent.index_lt index hIndex
      exact Nat.lt_trans index_lt (by decide)
    minWordLength_lt := by decide
    maxWordLength_lt := by decide
    signaturesTried_lt := by decide
    adjustments_lt := by decide }
  exact ⟨fits, build_reserved, (load_documentText fits).2.2 reservedWords 100 build_reserved⟩

end Table

end KeywordHash
