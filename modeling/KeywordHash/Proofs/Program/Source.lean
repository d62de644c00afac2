/-
Module: KeywordHash.Proofs.Program.Source
Layer: Proofs
Purpose: A look-up program is told by its source text (`eq_of_sourceBy`). No line of the text has a line
  feed in it, so the text tells its lines; the first parts have a fixed number of lines, and what they
  tell settles the next part; and each line tells the numbers or the row that it shows. Nothing is
  assumed of the characters that are taken for unprintable.
Imports: KeywordHash.Proofs.Program.Agreement, KeywordHash.Proofs.Text.Delimited,
  KeywordHash.Proofs.Text.Quoted
Trusted boundary: none
Main exports: SourceNames.IsOneLine, Program.rowLine_inj, Program.values_of_valueLines,
  Program.oneLines_sourceLines, Program.Regular, Program.eq_of_sourceBy
Open obligations: none
-/
import KeywordHash.Proofs.Program.Agreement
import KeywordHash.Proofs.Text.Delimited
import KeywordHash.Proofs.Text.Quoted

namespace KeywordHash

open Text (OneLine OneLines)

/-- The names in a source text have no line feeds. -/
structure SourceNames.IsOneLine (names : SourceNames) : Prop where
  payloadType : OneLine names.payloadType
  definitions : OneLine names.definitions

namespace Program

/-! ### What a line tells -/

theorem indented_inj {steps : Nat} {line line' : String}
    (same : indented steps line = indented steps line') : line = line' :=
  (String.append_right_inj _).1 same

/-- The offsets in brackets tell the signature. -/
theorem signature_of_describe {signature signature' : Signature}
    (same : signature.describe = signature'.describe) : signature = signature' := by
  have repr_ne_nil : ∀ signature : Signature, signature.offsets.map Nat.repr ≠ [] := fun signature =>
    mt List.map_eq_nil_iff.1 signature.ne_nil
  have noComma : ∀ offsets : List Nat, ∀ part ∈ offsets.map Nat.repr, ',' ∉ part.toList := by
    intro offsets part hPart
    obtain ⟨offset, _, rfl⟩ := List.mem_map.1 hPart
    exact Text.notMem_repr (by decide) offset
  have reprs_eq := Text.intercalate_comma_inj (repr_ne_nil _) (repr_ne_nil _) (noComma _) (noComma _)
    (Text.framed_inj same)
  have offsets_eq : signature.offsets = signature'.offsets :=
    List.map_injective_iff.2 (fun _ _ => Text.repr_inj) reprs_eq
  cases signature
  cases signature'
  cases offsets_eq
  rfl

/-! ### Values -/

theorem toList_paddedNumber (width n : Nat) : (paddedNumber width n).toList
    = List.replicate (width - (Nat.repr n).length) ' ' ++ (Nat.repr n).toList := by
  rw [paddedNumber, String.toList_append, String.toList_ofList]

/-- A padded number tells the number: its digits begin behind the blanks. -/
theorem paddedNumber_inj {width n n' : Nat} (same : paddedNumber width n = paddedNumber width n') :
    n = n' := by
  have blanks : ∀ count, ∀ c ∈ List.replicate count ' ', decide (c = ' ') := fun _ c hc =>
    decide_eq_true (List.eq_of_mem_replicate hc)
  have digits : ∀ n, ∀ c ∈ (Nat.repr n).toList.head?, ¬ decide (c = ' ') := by
    intro n c hc blank
    rw [of_decide_eq_true blank] at hc
    exact Text.notMem_repr (by decide) n (List.mem_of_mem_head? hc)
  have same' := congrArg String.toList same
  rw [toList_paddedNumber, toList_paddedNumber] at same'
  obtain ⟨_, digits_eq⟩ :=
    Text.append_inj_of_span (blanks _) (digits n) (blanks _) (digits n') same'
  exact Text.repr_inj (String.toList_injective digits_eq)

/-- Only blanks and digits stand in a padded number. -/
theorem notMem_paddedNumber {c : Char} (notBlank : c ≠ ' ') (noDigit : ¬ c.isDigit) (width n : Nat) :
    c ∉ (paddedNumber width n).toList := by
  rw [toList_paddedNumber, List.mem_append, not_or]
  exact ⟨fun member => notBlank (List.eq_of_mem_replicate member), Text.notMem_repr noDigit n⟩

/-- There are values for each of the thirteen lines. -/
theorem valueRow_ne_nil (program : Program) {line : Nat} (h : line < 13) :
    program.valueRow line ≠ [] := by
  rw [← List.length_pos_iff, valueRow, List.length_take, List.length_drop, List.length_map,
    Vector.length_toList]
  simp only [valuesPerLine, asciiCount]
  omega

/-- The numbers on a line of values are padded. -/
theorem exists_of_mem_valueRow {program : Program} {line : Nat} {cell : String}
    (h : cell ∈ program.valueRow line) :
    ∃ n, cell = paddedNumber (Nat.repr (program.maxHash + 1)).length n := by
  obtain ⟨n, _, rfl⟩ := List.mem_map.1 (List.mem_of_mem_drop (List.mem_of_mem_take h))
  exact ⟨n, rfl⟩

variable {program program' : Program}

/-- The lines of values tell the values, if the numbers are known to be equally wide. -/
theorem values_of_valueLines (maxHash_eq : program.maxHash = program'.maxHash)
    (same : program.valueLines = program'.valueLines) : program.values = program'.values := by
  have noComma : ∀ (program : Program) (line : Nat), ∀ cell ∈ program.valueRow line,
      ',' ∉ cell.toList := by
    intro program line cell hCell
    obtain ⟨n, rfl⟩ := exists_of_mem_valueRow hCell
    exact notMem_paddedNumber (by decide) (by decide) _ n
  have rows_eq : (List.range 13).map program.valueRow = (List.range 13).map program'.valueRow := by
    rw [valueLines_eq_valueRow, valueLines_eq_valueRow] at same
    apply List.map_congr_left
    intro line hLine
    have line_eq := List.map_inj_left.1 same line hLine
    have row_eq := (String.append_left_inj _).1 (indented_inj line_eq)
    exact Text.intercalate_comma_inj (valueRow_ne_nil _ (List.mem_range.1 hLine))
      (valueRow_ne_nil _ (List.mem_range.1 hLine)) (noComma _ _) (noComma _ _) row_eq
  have cells_eq := congrArg List.flatten rows_eq
  rw [flatten_valueRow, flatten_valueRow, maxHash_eq] at cells_eq
  exact Vector.toList_inj.1 (List.map_injective_iff.2 (fun _ _ => paddedNumber_inj) cells_eq)

/-! ### Rows -/

/-- The text that a row shows, which is empty for a row without a keyword. -/
def rowText : Row → String
  | some (text, _) => text
  | none => ""

/-- What a row shows behind its text. -/
def rowTail : Row → String
  | some (_, payload) => ", Some(" ++ payload ++ ")),"
  | none => ", None),"

theorem rowLine_eq (unprintable : Char → Bool) (row : Row) : rowLine unprintable row
    = indented 1 ("(" ++ (Text.quotedBy unprintable (rowText row) ++ rowTail row)) := by
  cases row with
  | none => rfl
  | some row => simp only [rowLine, rowText, rowTail, String.append_assoc]

/-- A keyword is not shown as none. -/
theorem rowTail_some_ne (row : String × String) : rowTail (some row) ≠ rowTail none := by
  intro same
  have same' := congrArg (fun tail : String => tail.toList.take 3) same
  simp [rowTail] at same'

/-- The line of a row tells the row. A row without a keyword shows the same text as a row with an empty
    one, but not the same behind it. -/
theorem rowLine_inj {unprintable : Char → Bool} {row row' : Row}
    (same : rowLine unprintable row = rowLine unprintable row') : row = row' := by
  rw [rowLine_eq, rowLine_eq] at same
  obtain ⟨text_eq, tail_eq⟩ :=
    Text.quotedBy_append_inj ((String.append_right_inj _).1 (indented_inj same))
  cases row with
  | none =>
      cases row' with
      | none => rfl
      | some row' => exact absurd tail_eq.symm (rowTail_some_ne row')
  | some row =>
      cases row' with
      | none => exact absurd tail_eq (rowTail_some_ne row)
      | some row' => rw [Prod.ext text_eq (Text.framed_inj tail_eq)]

/-! ### Every line is one line -/

@[simp]
theorem oneLine_indented_iff {steps : Nat} {line : String} :
    OneLine (indented steps line) ↔ OneLine line := by
  have blanks : OneLine (String.ofList (List.replicate (4 * steps) ' ')) := by
    rw [OneLine, String.toList_ofList]
    exact fun member => absurd (List.eq_of_mem_replicate member) (by decide)
  rw [indented, Text.oneLine_append_iff, and_iff_right blanks]

@[simp]
theorem oneLine_describe (signature : Signature) : OneLine signature.describe := by
  have listed : OneLine (String.intercalate ", " (signature.offsets.map Nat.repr)) :=
    Text.oneLine_intercalate (Text.oneLine_ofList (by decide)) (by simp)
  simp only [Signature.describe, Text.oneLine_append_iff, listed, and_true]
  and_intros <;> exact Text.oneLine_ofList (by decide)

@[simp]
theorem oneLine_pattern (arm : Arm) : OneLine arm.pattern := by
  have dots : OneLine ".." := Text.oneLine_ofList (by decide)
  have dotsEqual : OneLine "..=" := Text.oneLine_ofList (by decide)
  rw [Arm.pattern]
  split
  · simp [dots]
  · split <;> simp [dotsEqual]

theorem oneLines_armLines (arm : Arm) : OneLines (armLines arm) := by
  have arrow : OneLine " => \x7b" := Text.oneLine_ofList (by decide)
  have addition : OneLine "hval += asso(word[" := Text.oneLine_ofList (by decide)
  have closing : OneLine "]);" := Text.oneLine_ofList (by decide)
  have brace : OneLine "\x7d" := Text.oneLine_ofList (by decide)
  simp [armLines, arrow, addition, closing, brace]

theorem oneLines_valueLines (program : Program) : OneLines program.valueLines := by
  rw [valueLines_eq_valueRow, Text.oneLines_map_iff]
  intro line _
  rw [oneLine_indented_iff, Text.oneLine_append_iff]
  refine ⟨Text.oneLine_intercalate (Text.oneLine_ofList (by decide)) ?_,
    Text.oneLine_ofList (by decide)⟩
  intro cell hCell
  obtain ⟨n, rfl⟩ := exists_of_mem_valueRow hCell
  exact notMem_paddedNumber (by decide) (by decide) _ n

theorem oneLine_rowLine {unprintable : Char → Bool} {row : Row}
    (oneLinePayload : ∀ text payload, row = some (text, payload) → OneLine payload) :
    OneLine (rowLine unprintable row) := by
  have opening : OneLine "(" := Text.oneLine_ofList (by decide)
  have tail : OneLine (rowTail row) := by
    cases row with
    | none => exact Text.oneLine_ofList (by decide)
    | some row =>
        simp only [rowTail, Text.oneLine_append_iff, oneLinePayload row.1 row.2 rfl, and_true]
        and_intros <;> exact Text.oneLine_ofList (by decide)
  rw [rowLine_eq]
  simp [Text.oneLine_quotedBy, opening, tail]

/-- Every line of the source text is one line if the payloads and the names are. What is left of each
    part of the text are the lines that are the same for all programs. -/
theorem oneLines_sourceLines {unprintable : Char → Bool} {names : SourceNames}
    (oneLineNames : names.IsOneLine)
    (oneLinePayloads : ∀ text payload, some (text, payload) ∈ program.rows → OneLine payload) :
    OneLines (program.sourceLines unprintable names) := by
  obtain ⟨payloadType, definitions⟩ := oneLineNames
  have elementType : OneLine program.elementType.name := by
    cases program.elementType <;> exact Text.oneLine_ofList (by decide)
  have rowLines : OneLines (program.rows.toList.map (rowLine unprintable)) := by
    rw [Text.oneLines_map_iff]
    intro row hRow
    refine oneLine_rowLine fun text payload hSome => oneLinePayloads text payload ?_
    rwa [← hSome, ← Array.mem_toList_iff]
  simp only [sourceLines, headLines, valueSection, hashSection, rowSection, lookupSection,
    Text.oneLines_append_iff, Text.oneLines_cons_iff, Text.oneLines_nil, Text.oneLines_flatMap_iff,
    Text.oneLine_append_iff, Text.oneLine_toString_iff, Text.oneLine_toString, oneLine_indented_iff,
    oneLine_describe, oneLines_valueLines, oneLines_armLines, payloadType, definitions, elementType,
    rowLines, and_true, implies_true]
  and_intros <;> exact Text.oneLine_ofList (by decide)

/-! ### What the text tells -/

/-- A program whose element type and arms are those that its greatest hash and its signature ask for. -/
structure Regular (program : Program) : Prop where
  elementType_eq : program.elementType = .upTo (program.maxHash + 1)
  arms_eq : program.arms = lengthArms program.signature

theorem regular_standingFor (table : Table) : (standingFor table).Regular where
  elementType_eq := rfl
  arms_eq := rfl

theorem numbers_of_headLines {names : SourceNames}
    (same : program.headLines names = program'.headLines names) :
    program.signature = program'.signature ∧ program.minWordLength = program'.minWordLength
      ∧ program.maxWordLength = program'.maxWordLength ∧ program.maxHash = program'.maxHash := by
  simp only [headLines, List.cons.injEq, true_and, and_true] at same
  obtain ⟨signature_line, shortest_line, longest_line, hash_line⟩ := same
  exact ⟨signature_of_describe ((String.append_right_inj _).1 signature_line),
    Text.repr_inj (Text.framed_inj shortest_line), Text.repr_inj (Text.framed_inj longest_line),
    Text.repr_inj (Text.framed_inj hash_line)⟩

theorem values_of_valueSection (maxHash_eq : program.maxHash = program'.maxHash)
    (same : program.valueSection = program'.valueSection) : program.values = program'.values := by
  simp only [valueSection, List.cons_append, List.nil_append, List.cons.injEq] at same
  exact values_of_valueLines maxHash_eq (List.append_cancel_right same.2.2)

theorem rows_of_rowSection {unprintable : Char → Bool} {names : SourceNames}
    (same : program.rowSection unprintable names = program'.rowSection unprintable names) :
    program.rows = program'.rows := by
  have rowLines_eq := List.append_cancel_left (List.append_cancel_right same)
  exact Array.toList_inj.1 (List.map_injective_iff.2 (fun _ _ => rowLine_inj) rowLines_eq)

/-- A program is told by its text, if its element type and its arms are the right ones. The first lines
    tell the signature, and with it the arms, so the lines of the hash function are the same. -/
theorem eq_of_sourceBy {unprintable : Char → Bool} {names : SourceNames} (regular : program.Regular)
    (regular' : program'.Regular) (oneLineNames : names.IsOneLine)
    (oneLinePayloads : ∀ text payload, some (text, payload) ∈ program.rows → OneLine payload)
    (oneLinePayloads' : ∀ text payload, some (text, payload) ∈ program'.rows → OneLine payload)
    (same : program.sourceBy unprintable names = program'.sourceBy unprintable names) :
    program = program' := by
  have lines_eq := Text.join_lines_inj (oneLines_sourceLines oneLineNames oneLinePayloads)
    (oneLines_sourceLines oneLineNames oneLinePayloads') same
  simp only [sourceLines, List.append_assoc] at lines_eq
  obtain ⟨head_eq, behind_head⟩ := List.append_inj lines_eq rfl
  have valueSection_length : program.valueSection.length = program'.valueSection.length := by
    simp [valueSection, valueLines]
  obtain ⟨valueSection_eq, behind_values⟩ := List.append_inj behind_head valueSection_length
  obtain ⟨signature_eq, shortest_eq, longest_eq, maxHash_eq⟩ := numbers_of_headLines head_eq
  have values_eq := values_of_valueSection maxHash_eq valueSection_eq
  have arms_eq : program.arms = program'.arms := by
    rw [regular.arms_eq, regular'.arms_eq, signature_eq]
  have elementType_eq : program.elementType = program'.elementType := by
    rw [regular.elementType_eq, regular'.elementType_eq, maxHash_eq]
  have hashSection_eq : program.hashSection = program'.hashSection := by
    rw [hashSection, hashSection, arms_eq]
  rw [hashSection_eq] at behind_values
  have rows_eq :=
    rows_of_rowSection (List.append_cancel_right (List.append_cancel_left behind_values))
  cases program
  cases program'
  congr

end Program

end KeywordHash
