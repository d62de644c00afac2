/-
Module: KeywordHash.Proofs.Table.Source
Layer: Proofs
Purpose: The source text of a table tells all that look-ups depend on, and nothing else
  (`sourceBy_eq_iff`): two tables have the same text if and only if they have the same signature,
  lengths, greatest hash, values and rows, and then all look-ups answer alike. This holds for every
  choice of unprintable characters.
Imports: KeywordHash.Proofs.Program.Source
Trusted boundary: none
Main exports: Table.Alike, Table.Renderable, Table.standingFor_eq_iff, Table.payload_eq_of_alike,
  Table.sourceBy, Table.sourceBy_eq_iff
Open obligations: none
-/
import KeywordHash.Proofs.Program.Source

namespace KeywordHash

open Text (OneLine)

namespace Table

/-- The two tables have the same of all that look-ups depend on. -/
structure Alike (one other : Table) : Prop where
  signature_eq : one.signature = other.signature
  minWordLength_eq : one.minWordLength = other.minWordLength
  maxWordLength_eq : one.maxWordLength = other.maxWordLength
  maxHash_eq : one.maxHash = other.maxHash
  value_eq : ∀ c, one.value c = other.value c
  /-- The slots of a hash have keywords with the same text and payload, or none. -/
  slot_eq : ∀ hash, (one.slot hash).map (·.map fun keyword => (keyword.text, keyword.payload))
    = (other.slot hash).map (·.map fun keyword => (keyword.text, keyword.payload))

/-- The slots can be read, there are machine words behind the offsets, and no payload has a line feed. -/
structure Renderable (table : Table) : Prop where
  index_lt : ∀ index, some index ∈ table.slots → index < table.keywords.length
  offset_lt : ∀ offset ∈ table.signature.offsets, offset + 1 < wordLimit
  oneLine : ∀ keyword ∈ table.keywords, OneLine keyword.payload

variable {one other : Table}

/-- Tables that are alike give the same program, and no others do. -/
theorem standingFor_eq_iff (renderable : one.Renderable) (renderable' : other.Renderable) :
    Program.standingFor one = Program.standingFor other ↔ Alike one other := by
  have slot_eq := Program.rowOf_eq_ok renderable.index_lt
  have slot_eq' := Program.rowOf_eq_ok renderable'.index_lt
  constructor
  · intro same
    have maxHash_eq : one.maxHash = other.maxHash := congrArg Program.maxHash same
    constructor
    case signature_eq => exact congrArg Program.signature same
    case minWordLength_eq => exact congrArg Program.minWordLength same
    case maxWordLength_eq => exact congrArg Program.maxWordLength same
    case maxHash_eq => exact maxHash_eq
    case value_eq =>
      intro c
      rw [← Program.value_standingFor c, same, Program.value_standingFor c]
    case slot_eq =>
      intro hash
      refine (slot_eq hash).trans (Eq.trans (congrArg Except.ok ?_) (slot_eq' hash).symm)
      rcases Nat.lt_or_ge one.maxHash hash with outside | inside
      · rw [slotKeyword?_of_gt outside, slotKeyword?_of_gt (maxHash_eq ▸ outside)]
      · have row := Program.row_standingFor inside
        rw [same, Program.row_standingFor (maxHash_eq ▸ inside)] at row
        exact (Option.some.inj row).symm
  · intro alike
    have rows_eq : ∀ hash ∈ List.range (other.maxHash + 1),
        (one.slotKeyword? hash).map Program.keywordRow
          = (other.slotKeyword? hash).map Program.keywordRow := by
      intro hash _
      exact Except.ok.inj ((slot_eq hash).symm.trans ((alike.slot_eq hash).trans (slot_eq' hash)))
    simp only [Program.standingFor, sentinel, denseValues, alike.signature_eq, alike.minWordLength_eq,
      alike.maxWordLength_eq, alike.maxHash_eq, alike.value_eq, List.map_congr_left rows_eq]

/-- The payload that a look-up answers with is that of the row of the hash. -/
theorem payload_eq_rowOf (table : Table) (word : String) : table.payload word
    = if table.hasLength word.utf8ByteSize then
        table.hash (Text.bytes word) >>= fun hash =>
          if hash ≤ table.maxHash then
            (Program.rowOf table hash).map (Program.rowAnswer word)
          else
            .ok none
      else
        .ok none := by
  rw [payload, lookup]
  split
  · cases table.hash (Text.bytes word) with
    | error fault => rfl
    | ok hash =>
        rw [ok_bind]
        dsimp only
        split
        · rw [Program.rowOf]
          cases table.slot hash with
          | error fault => rfl
          | ok found => exact congrArg Except.ok (Program.rowAnswer_keywordRow word found).symm
        · rfl
  · rfl

/-- Look-ups in tables that are alike answer alike. -/
theorem payload_eq_of_alike (alike : Alike one other) (word : String) :
    one.payload word = other.payload word := by
  have hasLength_eq : one.hasLength word.utf8ByteSize = other.hasLength word.utf8ByteSize := by
    rw [hasLength, hasLength, alike.minWordLength_eq, alike.maxWordLength_eq]
  have hash_eq : one.hash (Text.bytes word) = other.hash (Text.bytes word) := by
    rw [hash, hash, hashSum, hashSum, alike.signature_eq, funext alike.value_eq]
  have rowOf_eq : Program.rowOf one = Program.rowOf other := funext alike.slot_eq
  rw [payload_eq_rowOf, payload_eq_rowOf, hasLength_eq, hash_eq, alike.maxHash_eq, rowOf_eq]

/-- The text of the program of a table, for a choice of unprintable characters. -/
def sourceBy (table : Table) (unprintable : Char → Bool) (names : SourceNames) : Except Fault String :=
  (Program.ofTable table).map (·.sourceBy unprintable names)

theorem source_eq_sourceBy (table : Table) (names : SourceNames) :
    table.source names = table.sourceBy Text.isUnprintable names :=
  rfl

/-- The payloads in the rows are those of keywords. -/
theorem Renderable.oneLine_of_mem_rows {table : Table} (renderable : table.Renderable)
    (text payload : String) (h : some (text, payload) ∈ (Program.standingFor table).rows) :
    OneLine payload := by
  rw [Program.standingFor, List.mem_toArray, List.mem_map] at h
  obtain ⟨hash, _, hRow⟩ := h
  obtain ⟨keyword, hKeyword, hParts⟩ := Option.map_eq_some_iff.1 hRow
  cases hParts
  exact renderable.oneLine keyword (mem_of_slotKeyword? hKeyword)

/-- Two tables have the same text if and only if they are alike, whatever characters are taken for
    unprintable, and then look-ups answer alike. -/
theorem sourceBy_eq_iff (unprintable : Char → Bool) {names : SourceNames}
    (oneLineNames : names.IsOneLine) (renderable : one.Renderable) (renderable' : other.Renderable) :
    ∃ text text', one.sourceBy unprintable names = .ok text
      ∧ other.sourceBy unprintable names = .ok text'
      ∧ (text = text' ↔ Alike one other)
      ∧ (text = text' → ∀ word, one.payload word = other.payload word) := by
  have made := Program.ofTable_eq_ok_of_index_lt renderable.index_lt renderable.offset_lt
  have made' := Program.ofTable_eq_ok_of_index_lt renderable'.index_lt renderable'.offset_lt
  have told : (Program.standingFor one).sourceBy unprintable names
      = (Program.standingFor other).sourceBy unprintable names ↔ Alike one other := by
    rw [← standingFor_eq_iff renderable renderable']
    constructor
    · exact Program.eq_of_sourceBy (Program.regular_standingFor one)
        (Program.regular_standingFor other) oneLineNames renderable.oneLine_of_mem_rows
        renderable'.oneLine_of_mem_rows
    · intro same
      rw [same]
  refine ⟨_, _, ?_, ?_, told, fun same => payload_eq_of_alike (told.1 same)⟩
  · rw [sourceBy, made]
    rfl
  · rw [sourceBy, made']
    rfl

/-- The three words in another order, each with the line that it comes from. -/
def reorderedWords : List Keyword :=
  [{ text := "int", payload := "Int", line := 1 }, { text := "if", payload := "If", line := 2 },
    { text := "in", payload := "In", line := 3 }]

/-- The table of the three words in another order. -/
def reorderedTable : Table :=
  { reservedTable with
    keywords := reorderedWords
    slots := #[none, none, some 2, some 0, some 1]
    stats := {} }

/-- The names in the source text of a lexer. -/
def lexerNames : SourceNames where
  payloadType := "TokenKind"
  definitions := "keywords.txt"

theorem renderable_reserved : reservedTable.Renderable where
  index_lt := by
    have slots_lt : ∀ slot ∈ reservedTable.slots, ∀ index ∈ slot, index < 3 := by decide
    exact fun index h => slots_lt _ h index rfl
  offset_lt := by decide
  oneLine := by
    simp only [reservedTable, reservedWords, ← Text.oneLines_map_iff, List.map_cons, List.map_nil,
      Text.oneLines_cons_iff, Text.oneLines_nil, and_true]
    and_intros <;> exact Text.oneLine_ofList (by decide)

theorem renderable_reordered : reorderedTable.Renderable where
  index_lt := by
    have slots_lt : ∀ slot ∈ reorderedTable.slots, ∀ index ∈ slot, index < 3 := by decide
    exact fun index h => slots_lt _ h index rfl
  offset_lt := by decide
  oneLine := by
    simp only [reorderedTable, reorderedWords, ← Text.oneLines_map_iff, List.map_cons, List.map_nil,
      Text.oneLines_cons_iff, Text.oneLines_nil, and_true]
    and_intros <;> exact Text.oneLine_ofList (by decide)

theorem alike_reordered : Alike reservedTable reorderedTable where
  signature_eq := rfl
  minWordLength_eq := rfl
  maxWordLength_eq := rfl
  maxHash_eq := rfl
  value_eq := fun _ => rfl
  slot_eq
    | 0 | 1 | 2 | 3 | 4 => rfl
    | _ + 5 => rfl

/-- The order of the keywords is not told by the text, nor are their lines or the work of the search. -/
theorem sourceBy_eq_iff_reordered :
    lexerNames.IsOneLine ∧ reservedTable.Renderable ∧ reorderedTable.Renderable
      ∧ Alike reservedTable reorderedTable
      ∧ ∃ text text', reservedTable.sourceBy (· = 'n') lexerNames = .ok text
        ∧ reorderedTable.sourceBy (· = 'n') lexerNames = .ok text'
        ∧ (text = text' ↔ Alike reservedTable reorderedTable)
        ∧ (text = text' → ∀ word, reservedTable.payload word = reorderedTable.payload word) :=
  have oneLineNames : lexerNames.IsOneLine :=
    ⟨Text.oneLine_ofList (by decide), Text.oneLine_ofList (by decide)⟩
  ⟨oneLineNames, renderable_reserved, renderable_reordered, alike_reordered,
    sourceBy_eq_iff _ oneLineNames renderable_reserved renderable_reordered⟩

end Table

end KeywordHash
