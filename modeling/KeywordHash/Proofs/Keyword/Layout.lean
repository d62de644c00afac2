/-
Module: KeywordHash.Proofs.Keyword.Layout
Layer: Proofs
Purpose: Texts as they are written from records (`Layout`): padded at will, with blank lines and comments
  in between, and with either ending at each line. Reading such a text gives the records back, whatever
  the layout is (`parse_of_layout`). What is behind the content of a line may be cut off anywhere, so it
  makes no difference whether a carriage return there is taken for a blank or for a part of the ending.
Imports: KeywordHash.Proofs.Keyword.Reading
Trusted boundary: none
Main exports: Definitions.Record, Definitions.WrittenLine, Definitions.Layout,
  Definitions.WrittenLine.means_content, Definitions.Layout.holds_lines, Definitions.parse_of_layout
Open obligations: none
-/
import KeywordHash.Proofs.Keyword.Reading

namespace KeywordHash

/-- Key characters are not blank. -/
theorem not_isBlank_of_keyCharacter {c : Char} (h : KeyCharacter c) : ¬ Text.isBlank c := by
  have code_range : 0x30 ≤ c.toNat ∧ c.toNat ≤ 0x7A := by
    simp only [KeyCharacter, Char.le_def, UInt32.le_iff_toNat_le] at h
    rcases h with ⟨first, last⟩ | ⟨first, last⟩ | ⟨first, last⟩ | rfl
    · exact ⟨Nat.le_trans (by decide) first, Nat.le_trans last (by decide)⟩
    · exact ⟨Nat.le_trans (by decide) first, Nat.le_trans last (by decide)⟩
    · exact ⟨first, Nat.le_trans last (by decide)⟩
    · decide
  simp [Text.isBlank, Text.CodeRange.cover, Text.CodeRange.contains, Text.blankRanges]
  omega

namespace Definitions

/-! ### Layouts -/

/-- A key and a payload that can stand on one line. -/
structure Record where
  key : List Char
  payload : List Char
  key_ne_nil : key ≠ []
  key_characters : ∀ c ∈ key, KeyCharacter c
  payload_ne_nil : payload ≠ []
  payload_begins : ∀ c ∈ payload.head?, ¬ Text.isBlank c
  payload_ends : ∀ c ∈ payload.getLast?, ¬ Text.isBlank c
  payload_noFeed : ∀ c ∈ payload, c ≠ '\n'

/-- The keyword of a record on the line with the given number. -/
def Record.keyword (record : Record) (number : Nat) : Keyword where
  text := String.ofList record.key
  payload := String.ofList record.payload
  line := number

/-- Blanks that do not end a line, if any. -/
structure Padding where
  characters : List Char
  blank : ∀ c ∈ characters, Text.isBlank c
  noFeed : ∀ c ∈ characters, c ≠ '\n'

/-- What stands between a key and its payload. -/
structure Separator where
  characters : List Char
  ne_nil : characters ≠ []
  separators : ∀ c ∈ characters, c = ' ' ∨ c = '\t'

/-- What is written on a line. -/
inductive WrittenLine where
  | blank (padding : Padding)
  | comment (indent : Padding) (remark : List Char) (noFeed : ∀ c ∈ remark, c ≠ '\n')
  | entry (indent : Padding) (record : Record) (separator : Separator) (trail : Padding)

namespace WrittenLine

/-- The line without its ending. -/
def characters : WrittenLine → List Char
  | .blank padding => padding.characters
  | .comment indent remark _ => indent.characters ++ '#' :: remark
  | .entry indent record separator trail =>
      indent.characters
        ++ (record.key ++ (separator.characters ++ (record.payload ++ trail.characters)))

/-- The record on the line. -/
def record? : WrittenLine → Option Record
  | .blank _ => none
  | .comment _ _ _ => none
  | .entry _ record _ _ => some record

/-- The keyword that the line defines if it has the given number. -/
def keyword? (line : WrittenLine) (number : Nat) : Option Keyword :=
  line.record?.map (·.keyword number)

end WrittenLine

/-- The two ways to end a line. -/
inductive Ending where
  | feed
  | returnFeed

def Ending.characters : Ending → List Char
  | .feed => ['\n']
  | .returnFeed => ['\r', '\n']

/-- A text by its lines, the last of which may go without an ending. -/
structure Layout where
  ended : List (WrittenLine × Ending)
  unended : Option WrittenLine

namespace Layout

/-- All lines in their order. -/
def written (layout : Layout) : List WrittenLine :=
  layout.ended.map (·.1) ++ layout.unended.toList

def characters (layout : Layout) : List Char :=
  layout.ended.flatMap (fun (line, ending) => line.characters ++ ending.characters)
    ++ layout.unended.elim [] (·.characters)

/-- The text that is written. -/
def text (layout : Layout) : String :=
  String.ofList layout.characters

/-- The records in the order of their lines. -/
def records (layout : Layout) : List Record :=
  layout.written.filterMap (·.record?)

/-- The keywords of the records if the first line has the given number. -/
def keywordsFrom (layout : Layout) (start : Nat) : List Keyword :=
  (layout.written.zipIdx start).filterMap fun (line, number) => line.keyword? number

/-- The keywords of the records, each with the number of its line. -/
def keywords (layout : Layout) : List Keyword :=
  layout.keywordsFrom 1

end Layout

/-! ### Lines

A line has a part that tells what it says, and a remainder, of which any part may be cut off at the end. The
content does not end in a carriage return, so whatever reading the lines cuts off is of the remainder. -/

namespace WrittenLine

/-- The part of a line that tells what it says. -/
def content : WrittenLine → List Char
  | .blank _ => []
  | .comment indent _ _ => indent.characters ++ ['#']
  | .entry indent record separator _ =>
      indent.characters ++ (record.key ++ (separator.characters ++ record.payload))

/-- What is behind the content. -/
def remainder : WrittenLine → List Char
  | .blank padding => padding.characters
  | .comment _ remark _ => remark
  | .entry _ _ _ trail => trail.characters

/-- What a line says. -/
def meaning : WrittenLine → Line
  | .blank _ => .ignored
  | .comment _ _ _ => .ignored
  | .entry _ record _ _ => .record record.key record.payload

variable (line : WrittenLine)

theorem characters_eq : line.characters = line.content ++ line.remainder := by
  cases line <;> simp [characters, content, remainder]

/-- A line has no line feed in it. -/
theorem noFeed : ∀ c ∈ line.characters, c ≠ '\n' := by
  cases line with
  | blank padding => exact padding.noFeed
  | comment indent remark remark_noFeed =>
      intro c hc
      simp only [characters, List.mem_append, List.mem_cons] at hc
      rcases hc with inIndent | rfl | inRemark
      · exact indent.noFeed c inIndent
      · decide
      · exact remark_noFeed c inRemark
  | entry indent record separator trail =>
      intro c hc
      simp only [characters, List.mem_append] at hc
      rcases hc with inIndent | inKey | inSeparator | inPayload | inTrail
      · exact indent.noFeed c inIndent
      · rintro rfl
        exact not_isBlank_of_keyCharacter (record.key_characters _ inKey) (by decide)
      · rintro rfl
        exact absurd (separator.separators _ inSeparator) (by decide)
      · exact record.payload_noFeed c inPayload
      · exact trail.noFeed c inTrail

/-- The content does not end in a carriage return. -/
theorem content_ends : ∀ c ∈ line.content.getLast?, c ≠ '\r' := by
  cases line with
  | blank padding => simp [content]
  | comment indent remark _ =>
      simp [content]
  | entry indent record separator trail =>
      rintro c hc rfl
      have payload_last : '\r' ∈ record.payload.getLast? := by
        simpa [content, List.getLast?_append_of_ne_nil, record.payload_ne_nil] using hc
      exact record.payload_ends _ payload_last (by decide)

/-- Whatever part of the remainder is behind the content, the line says the same. -/
theorem means_content {behind : List Char} (part : ∀ c ∈ behind, c ∈ line.remainder) :
    Line.Means (line.content ++ behind) line.meaning := by
  cases line with
  | blank padding =>
      refine .blank fun c hc => padding.blank c (part c ?_)
      exact (List.dropWhile_sublist _).subset hc
  | comment indent remark _ =>
      have begins : ∀ c ∈ ('#' :: behind).head?, ¬ Text.isBlank c := by
        rintro _ ⟨⟩
        decide
      apply Line.Means.comment
      simp [content, Text.trimStart_append indent.blank begins]
  | entry indent record separator trail =>
      have begins : ∀ c ∈ (record.key ++ (separator.characters ++ (record.payload ++ behind))).head?,
          ¬ Text.isBlank c := by
        intro c hc
        rw [List.head?_append_of_ne_nil _ record.key_ne_nil] at hc
        exact not_isBlank_of_keyCharacter (record.key_characters c (List.mem_of_mem_head? hc))
      have parts : Line.Decomposition
          (Text.trimStart ((entry indent record separator trail).content ++ behind))
          record.key separator.characters record.payload behind := by
        constructor
        case body_eq => simp [content, Text.trimStart_append indent.blank begins]
        case key_ne_nil => exact record.key_ne_nil
        case key_characters => exact record.key_characters
        case separator_ne_nil => exact separator.ne_nil
        case separators => exact separator.separators
        case payload_ne_nil => exact record.payload_ne_nil
        case payload_begins => exact record.payload_begins
        case payload_ends => exact record.payload_ends
        case trail_blank => exact fun c hc => trail.blank c (part c hc)
      exact .record parts

theorem means_characters : Line.Means line.characters line.meaning := by
  rw [characters_eq]
  exact line.means_content fun _ hc => hc

/-- The line says the same without a carriage return at its end. -/
theorem means_withoutReturn : Line.Means (Text.withoutReturn line.characters) line.meaning := by
  rw [characters_eq, Text.withoutReturn_append line.content_ends]
  exact line.means_content fun _ hc => Text.mem_of_mem_withoutReturn hc

/-- A line without characters has no record on it. -/
theorem keyword?_of_characters_eq_nil (h : line.characters = []) (number : Nat) :
    line.keyword? number = none := by
  cases line with
  | blank padding => rfl
  | comment indent remark _ => rfl
  | entry indent record separator trail =>
      simp [characters, record.key_ne_nil] at h

end WrittenLine

/-! ### The text -/

/-- A line that says what is written on it holds its keyword and nothing malformed. -/
theorem holds_cons {line : WrittenLine} {raw : List Char} {number : Nat}
    {rest : List (List Char × Nat)} {keywords : List Keyword} {malformed : List MalformedLine}
    (hLine : Line.Means raw line.meaning) (hRest : Holds rest keywords malformed) :
    Holds ((raw, number) :: rest) ((line.keyword? number).toList ++ keywords) malformed := by
  cases line with
  | blank padding => exact .ignored hLine hRest
  | comment indent remark _ => exact .ignored hLine hRest
  | entry indent record separator trail => exact .record hLine hRest

namespace Layout

theorem keywordsFrom_cons (line : WrittenLine) (ending : Ending) (rest : List (WrittenLine × Ending))
    (unended : Option WrittenLine) (start : Nat) :
    keywordsFrom { ended := (line, ending) :: rest, unended := unended } start
      = (line.keyword? start).toList
        ++ keywordsFrom { ended := rest, unended := unended } (start + 1) := by
  simp only [keywordsFrom, written, List.map_cons, List.cons_append, List.zipIdx_cons,
    List.filterMap_cons]
  cases line.keyword? start <;> rfl

/-- The lines of the text hold the keywords of the layout. The induction is on the lines with an ending,
    each of which is the first line of the text that is left. -/
theorem holds_lines (layout : Layout) (start : Nat) :
    Holds ((Text.lines layout.characters).zipIdx start) (layout.keywordsFrom start) [] := by
  obtain ⟨ended, unended⟩ := layout
  induction ended generalizing start with
  | nil =>
      cases unended with
      | none =>
          have text_eq : characters { ended := [], unended := none } = [] := rfl
          rw [text_eq, Text.lines_eq]
          exact .nil
      | some line =>
          have keywords_eq : keywordsFrom { ended := [], unended := some line } start
              = (line.keyword? start).toList ++ [] := by
            simp [keywordsFrom, written, List.filterMap_cons]
            cases line.keyword? start <;> rfl
          have text_eq : characters { ended := [], unended := some line } = line.characters := rfl
          rw [keywords_eq, text_eq]
          by_cases empty : line.characters = []
          · rw [empty, line.keyword?_of_characters_eq_nil empty, Text.lines_eq]
            exact .nil
          · rw [Text.lines_of_noFeed empty line.noFeed]
            exact holds_cons line.means_characters .nil
  | cons first rest ih =>
      obtain ⟨line, ending⟩ := first
      have text_eq : characters { ended := (line, ending) :: rest, unended := unended }
          = line.characters
            ++ (ending.characters ++ characters { ended := rest, unended := unended }) := by
        simp [characters]
      rw [keywordsFrom_cons, text_eq]
      cases ending with
      | feed =>
          rw [Ending.characters, List.singleton_append, Text.lines_append_feed line.noFeed]
          exact holds_cons line.means_withoutReturn (ih (start + 1))
      | returnFeed =>
          have parts : Ending.returnFeed.characters ++ characters { ended := rest, unended := unended }
              = '\r' :: '\n' :: characters { ended := rest, unended := unended } := rfl
          rw [parts, Text.lines_append_returnFeed line.noFeed]
          exact holds_cons line.means_characters (ih (start + 1))

/-- The keywords have the keys and the payloads of the records, in their order. -/
theorem map_keywords (layout : Layout) :
    layout.keywords.map (fun keyword => (keyword.text, keyword.payload))
      = layout.records.map fun record => (String.ofList record.key, String.ofList record.payload) := by
  have unnumbered : layout.written = (layout.written.zipIdx 1).map (·.1) :=
    (List.zipIdx_map_fst 1 layout.written).symm
  rw [records, unnumbered, keywords, keywordsFrom, List.map_filterMap, List.map_filterMap,
    List.filterMap_map]
  simp only [WrittenLine.keyword?, Option.map_map]
  rfl

end Layout

/-- However records with different keys are laid out, reading the text gives their keywords in order, each
    with the number of its line, and passes over nothing. -/
theorem parse_of_layout (layout : Layout) (nodup : (layout.records.map (·.key)).Nodup) :
    parse layout.text = .ok { keywords := layout.keywords, skipped := [] }
      ∧ layout.keywords.map (fun keyword => (keyword.text, keyword.payload))
        = layout.records.map fun record => (String.ofList record.key, String.ofList record.payload) := by
  have texts_eq : layout.keywords.map (·.text)
      = (layout.records.map (·.key)).map String.ofList := by
    have pairs_eq := congrArg (List.map Prod.fst) layout.map_keywords
    rw [List.map_map, List.map_map] at pairs_eq
    rw [List.map_map]
    exact pairs_eq
  have texts_nodup : (layout.keywords.map (·.text)).Nodup := by
    rw [texts_eq]
    exact nodup.map fun _ _ => String.ofList_injective
  have holds : Holds (Text.numberedLines layout.text.toList) layout.keywords [] := by
    rw [Layout.text, String.toList_ofList]
    exact layout.holds_lines 1
  refine ⟨?_, layout.map_keywords⟩
  rw [parse_eq]
  exact @addLines_of_holds _ _ _ holds {} texts_nodup

/-- Two records below a comment: with a carriage return in front of a line feed that is a blank in one line
    and a part of the ending in another, with blanks that end no line, and with a last line that is not
    ended. -/
def scatteredLayout : Layout where
  ended :=
    [(.comment
        { characters := ['\u0085'], blank := List.all_eq_true.1 (by decide), noFeed := by simp }
        [' ', '\r'] (by simp), .returnFeed),
      (.entry { characters := ['\t'], blank := List.all_eq_true.1 (by decide), noFeed := by simp }
        { key := ['i', 'f'], payload := ['#', ' ', '1'], key_ne_nil := by decide
          key_characters := fun c h => isKeyCharacter_iff.1 (List.all_eq_true.1 (by decide) c h)
          payload_ne_nil := by decide, payload_begins := by rintro _ ⟨⟩; decide
          payload_ends := by rintro _ ⟨⟩; decide
          payload_noFeed := by simp }
        { characters := [' ', '\t'], ne_nil := by decide, separators := by simp }
        { characters := ['\u00a0', '\r'], blank := List.all_eq_true.1 (by decide), noFeed := by simp },
        .feed),
      (.blank
        { characters := ['\u2028', ' '], blank := List.all_eq_true.1 (by decide), noFeed := by simp },
        .feed)]
  unended :=
    some (.entry { characters := [], blank := by simp, noFeed := by simp }
      { key := ['i', 'n'], payload := ['I', '\r', 'n'], key_ne_nil := by decide
        key_characters := fun c h => isKeyCharacter_iff.1 (List.all_eq_true.1 (by decide) c h)
        payload_ne_nil := by decide, payload_begins := by rintro _ ⟨⟩; decide
        payload_ends := by rintro _ ⟨⟩; decide
        payload_noFeed := by simp }
      { characters := [' '], ne_nil := by decide, separators := by simp }
      { characters := ['\r'], blank := List.all_eq_true.1 (by decide), noFeed := by simp })

theorem parse_scattered :
    (scatteredLayout.records.map (·.key)).Nodup
      ∧ scatteredLayout.text = "\u0085# \r\r\n\tif \t# 1\u00a0\r\n\u2028 \nin I\rn\r"
      ∧ parse scatteredLayout.text = .ok
        { keywords :=
            [{ text := "if", payload := "# 1", line := 2 },
              { text := "in", payload := "I\rn", line := 4 }] } := by
  have nodup : (scatteredLayout.records.map (·.key)).Nodup := by decide
  exact ⟨nodup, by decide +kernel, (parse_of_layout scatteredLayout nodup).1⟩

end Definitions

end KeywordHash
