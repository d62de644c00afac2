/-
Module: KeywordHash.Proofs.Generation.Success
Layer: Proofs
Purpose: What a generation that succeeds leaves behind (`generation_complete`): the program of the table
  as a whole, a document from which the same table is loaded, and every other file as it was. The table
  answers for exactly the keywords of the definitions. The program and the document have to be put in
  different places, and the size of the definitions and the counts of the search are machine words.
Imports: KeywordHash.Proofs.Files.Replacement, KeywordHash.Proofs.Generation.Course,
  KeywordHash.Proofs.Table.Lookup, KeywordHash.Proofs.Table.Machine,
  KeywordHash.Proofs.Table.Verification
Trusted boundary: none
Main exports: Generated, generation_complete
Open obligations: none
-/
import KeywordHash.Proofs.Files.Replacement
import KeywordHash.Proofs.Generation.Course
import KeywordHash.Proofs.Table.Lookup
import KeywordHash.Proofs.Table.Machine
import KeywordHash.Proofs.Table.Verification

namespace KeywordHash

/-- The paths of the files that generation writes. -/
def Config.written (config : Config) (output : String) : List String :=
  output :: config.documentPath.toList

/-- What a generation from definitions leaves behind, and what its table answers. -/
structure Generated (before : FileTree) (definitions : Definitions) (input output : String)
    (config : Config) (table : Table) (after : FileTree) : Prop where
  /-- The program names the payload type of the settings and the file name of the input. -/
  program : ∃ source, table.source {
      payloadType := config.payloadType
      definitions := (Path.fileName? input).getD input } = .ok source
    ∧ after.read output = .ok (Text.bytes source)
  document : ∀ path, config.documentPath = some path →
    after.perform (loadTable path) = (.ok table, after)
  lookup_iff : ∀ word keyword, table.lookup word = .ok (some keyword)
    ↔ Keyword.find? definitions.keywords word = some keyword
  lookup_eq : ∀ word, table.hashSum (Text.bytes word) < wordLimit →
    table.lookup word = .ok (Keyword.find? definitions.keywords word)
  keeps : before.KeepsBut after
    {location | ∃ path ∈ config.written output, location = before.destination path}
    {location | ∃ path ∈ config.written output, location ∈ before.wayTo path}

/-! ### The table -/

section

variable {before : FileTree} {input : String} {config : Config} {definitions : Definitions}
  {table : Table} {source : String}

/-- The definitions are those of a text at the input. -/
theorem Prepared.exists_text (prepared : Prepared before input config definitions table source) :
    ∃ text, before.read input = .ok (Text.bytes text) ∧ Definitions.parse text = .ok definitions := by
  obtain ⟨result, read, ofText⟩ := before.perform_readDefinitions input
  cases prepared.read.symm.trans read
  exact ofText definitions rfl

/-- The table finds exactly the keywords of the definitions. -/
theorem Prepared.lookup_eq_some_iff (prepared : Prepared before input config definitions table source)
    (word : String) (keyword : Keyword) : table.lookup word = .ok (some keyword)
      ↔ Keyword.find? definitions.keywords word = some keyword := by
  obtain ⟨keywords_eq, perfect⟩ := Table.perfect_of_build prepared.build
  rw [← keywords_eq]
  exact perfect.lookup_eq_some_iff (Table.hashSum_lt_of_verify prepared.verify)

theorem Prepared.lookup_eq (prepared : Prepared before input config definitions table source)
    (word : String) (sum_lt : table.hashSum (Text.bytes word) < wordLimit) :
    table.lookup word = .ok (Keyword.find? definitions.keywords word) := by
  obtain ⟨keywords_eq, perfect⟩ := Table.perfect_of_build prepared.build
  rw [← keywords_eq]
  exact perfect.lookup_eq sum_lt

/-- The table is loaded from its document, if the definitions are no longer than a machine word can tell
    and the counts of the search are machine words. -/
theorem Prepared.load (prepared : Prepared before input config definitions table source)
    (size_lt : ∀ content, before.read input = .ok content → content.length < wordLimit)
    (tries_lt : config.maxTries < wordLimit) (tried_lt : table.stats.signaturesTried < wordLimit) :
    Table.load (Text.bytes table.documentText) = .ok table := by
  obtain ⟨text, read, hParse⟩ := prepared.exists_text
  have text_lt := size_lt _ read
  rw [Text.length_bytes] at text_lt
  have line_lt : ∀ keyword ∈ definitions.keywords, keyword.line < wordLimit := by
    intro keyword hKeyword
    exact Nat.lt_of_le_of_lt (Definitions.linesWithin_of_parse hParse keyword hKeyword) text_lt
  have total_lt := Nat.lt_of_le_of_lt (Definitions.usable_of_parse hParse).2 text_lt
  have fits := Table.fitsMachine_of_build prepared.build total_lt line_lt tries_lt tried_lt
  exact Table.load_of_build prepared.build fits

end

/-! ### The files -/

/-- Writing that succeeds puts the program and the document in their places, if these differ. -/
theorem files_of_writeOut {before after : FileTree} {output : String} {config : Config} {table : Table}
    {source : String}
    (distinct : ∀ path, config.documentPath = some path →
      before.destination path ≠ before.destination output)
    (course : WriteOut before output config table source (.ok table, after)) :
    after.read output = .ok (Text.bytes source)
      ∧ (∀ path, config.documentPath = some path →
          after.read path = .ok (Text.bytes table.documentText))
      ∧ before.KeepsBut after
          {location | ∃ path ∈ config.written output, location = before.destination path}
          {location | ∃ path ∈ config.written output, location ∈ before.wayTo path} := by
  have isWritten : output ∈ config.written output := List.mem_cons_self
  cases course with
  | programOnly program documentPath =>
      obtain ⟨keeps, read⟩ := FileTree.keepsBut_of_replaceFile_ok program
      refine ⟨read, ?_, keeps.mono ?_ ?_⟩
      · intro path asked
        rw [documentPath] at asked
        cases asked
      · rintro location rfl
        exact ⟨output, isWritten, rfl⟩
      · intro location onWay
        exact ⟨output, isWritten, onWay⟩
  | @both between _ path program documentPath document =>
      obtain ⟨keeps, read⟩ := FileTree.keepsBut_of_replaceFile_ok program
      obtain ⟨keepsNext, readNext⟩ := FileTree.keepsBut_of_replaceFile_ok document
      rw [FileTree.destination_congr keeps.workingDirectory_eq,
        FileTree.wayTo_congr keeps.workingDirectory_eq] at keepsNext
      have two := keeps.trans keepsNext
      have alsoWritten : path ∈ config.written output := by
        rw [Config.written, documentPath]
        exact List.mem_cons_of_mem _ List.mem_cons_self
      have apart : between.destination output ∉ ({before.destination path} : Set Location) := by
        rw [FileTree.destination_congr keeps.workingDirectory_eq]
        exact (distinct path documentPath).symm
      refine ⟨keepsNext.read read apart, ?_, two.mono ?_ ?_⟩
      · intro other asked
        cases documentPath.symm.trans asked
        exact readNext
      · rintro location (rfl | rfl)
        · exact ⟨output, isWritten, rfl⟩
        · exact ⟨path, alsoWritten, rfl⟩
      · rintro location (onWay | onWay)
        · exact ⟨output, isWritten, onWay⟩
        · exact ⟨path, alsoWritten, onWay⟩

/-- A generation that succeeds puts the program of its table at the output and, if one is asked for, a
    document from which the table is loaded again. The table finds exactly the keywords that the text at
    the input defines, and apart from directories on the way to the two files nothing else changes. That
    sizes and counts are machine words is only asked for because a document holds no greater numbers. -/
theorem generation_complete {before after : FileTree} {input output : String} {config : Config}
    {table : Table} (h : before.perform (generate input output config) = (.ok table, after))
    (distinct : ∀ path, config.documentPath = some path →
      before.destination path ≠ before.destination output)
    (size_lt : ∀ content, before.read input = .ok content → content.length < wordLimit)
    (tries_lt : config.maxTries < wordLimit) (tried_lt : table.stats.signaturesTried < wordLimit) :
    ∃ text definitions, before.read input = .ok (Text.bytes text)
      ∧ Definitions.parse text = .ok definitions
      ∧ Generated before definitions input output config table after := by
  rcases generate_course before input output config with
    ⟨_, _, run⟩ | ⟨definitions, built, source, prepared, course⟩
  · cases h.symm.trans run
  · rw [h] at course
    have table_eq : table = built := by cases course <;> rfl
    subst table_eq
    obtain ⟨text, read, hParse⟩ := prepared.exists_text
    obtain ⟨readProgram, readDocument, keeps⟩ := files_of_writeOut distinct course
    have load := prepared.load size_lt tries_lt tried_lt
    refine ⟨text, definitions, read, hParse, ?_⟩
    constructor
    case program => exact ⟨source, prepared.source_eq, readProgram⟩
    case document =>
      intro path asked
      rw [FileTree.perform_loadTable (readDocument path asked), load]
    case lookup_iff => exact prepared.lookup_eq_some_iff
    case lookup_eq => exact prepared.lookup_eq
    case keeps => exact keeps

/-- Settings that ask for a document beside the program. -/
def twoFilesConfig : Config where
  documentPath := some "words.json"

/-- The table of the two words. They differ in length, so any values will do. -/
def twoWordsTable : Table where
  keywords :=
    [{ text := "if", payload := "If", line := 1 }, { text := "int", payload := "Int", line := 2 }]
  signature := { offsets := [0], ne_nil := by decide, increasing := by decide }
  values := { cells := (Vector.replicate asciiCount unused).set 105 0 (by decide) }
  slots := #[none, none, some 0, some 1]
  minWordLength := 2
  maxWordLength := 3
  stats := { signaturesTried := 1, adjustments := 0 }

/-- The program and the document of the two words are there, and the table is loaded again. -/
theorem generation_complete_twoWords :
    twoWordsTree.perform (generate "words" "words.rs" twoFilesConfig)
        = (.ok twoWordsTable, (twoWordsTree.perform (generate "words" "words.rs" twoFilesConfig)).2)
      ∧ twoWordsTree.destination "words.json" ≠ twoWordsTree.destination "words.rs"
      ∧ ∃ text definitions, twoWordsTree.read "words" = .ok (Text.bytes text)
        ∧ Definitions.parse text = .ok definitions
        ∧ Generated twoWordsTree definitions "words" "words.rs" twoFilesConfig twoWordsTable
            (twoWordsTree.perform (generate "words" "words.rs" twoFilesConfig)).2 := by
  have succeeds : (twoWordsTree.perform (generate "words" "words.rs" twoFilesConfig)).1
      = .ok twoWordsTable := by
    decide +kernel
  have run : twoWordsTree.perform (generate "words" "words.rs" twoFilesConfig)
      = (.ok twoWordsTable,
        (twoWordsTree.perform (generate "words" "words.rs" twoFilesConfig)).2) :=
    Prod.ext succeeds rfl
  have apart : twoWordsTree.destination "words.json" ≠ twoWordsTree.destination "words.rs" := by
    decide +kernel
  have distinct : ∀ path, twoFilesConfig.documentPath = some path →
      twoWordsTree.destination path ≠ twoWordsTree.destination "words.rs" := by
    intro path asked
    cases asked
    exact apart
  have content_eq : twoWordsTree.read "words" = .ok (Text.bytes "if If\nint Int\n") := by
    decide +kernel
  have size_lt : ∀ content, twoWordsTree.read "words" = .ok content → content.length < wordLimit := by
    intro content read
    cases content_eq.symm.trans read
    decide
  exact ⟨run, apart, generation_complete run distinct size_lt (by decide) (by decide)⟩

end KeywordHash
