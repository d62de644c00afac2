/-
Module: KeywordHash.Proofs.Generation.Course
Layer: Proofs
Purpose: How generation goes on a tree of files, stage by stage. Everything up to the text of the program
  is worked out before anything is written (`Unprepared`, `Prepared`); then the program and, if one is
  asked for, the document are put in their places, and each of the two may fail (`WriteOut`).
Imports: KeywordHash.Proofs.Host, KeywordHash.Proofs.Outcome
Trusted boundary: none
Main exports: Unprepared, Prepared, writeOut, WriteOut, writeOut_outcome, generate_course,
  twoWordsTree
Open obligations: none
-/
import KeywordHash.Proofs.Host
import KeywordHash.Proofs.Outcome

namespace KeywordHash

section

variable (before : FileTree) (input : String) (config : Config)

/-- The error in which generation ends before anything is written, by the stage that it comes from. -/
inductive Unprepared (error : Error) : Prop where
  | reading (fails : before.perform (readDefinitions input) = (.error error, before))
  | building {definitions : Definitions}
      (read : before.perform (readDefinitions input) = (.ok definitions, before))
      (fails : Table.build definitions.keywords config.maxTries = .error error)
  | verifying {definitions : Definitions} {table : Table}
      (read : before.perform (readDefinitions input) = (.ok definitions, before))
      (build : Table.build definitions.keywords config.maxTries = .ok table)
      (fails : table.verify = .error error)
  | rendering {definitions : Definitions} {table : Table}
      (read : before.perform (readDefinitions input) = (.ok definitions, before))
      (build : Table.build definitions.keywords config.maxTries = .ok table)
      (verify : table.verify = .ok ())
      (fails : orFault (table.source (sourceNames config input)) = .error error)

/-- What is there when writing begins: the definitions that were read, the table for their keywords, which
    passes the checks, and the text of its program. -/
structure Prepared (definitions : Definitions) (table : Table) (source : String) : Prop where
  read : before.perform (readDefinitions input) = (.ok definitions, before)
  build : Table.build definitions.keywords config.maxTries = .ok table
  verify : table.verify = .ok ()
  source_eq : table.source (sourceNames config input) = .ok source

/-- Generation comes to the point where writing begins, or it ends before. -/
theorem prepared_or_unprepared :
    (∃ definitions table source, Prepared before input config definitions table source)
      ∨ ∃ error, Unprepared before input config error := by
  obtain ⟨result, read, _⟩ := before.perform_readDefinitions input
  rcases result with error | definitions
  · exact Or.inr ⟨error, .reading read⟩
  · cases build : Table.build definitions.keywords config.maxTries with
    | error error => exact Or.inr ⟨error, .building read build⟩
    | ok table =>
        cases verify : table.verify with
        | error error => exact Or.inr ⟨error, .verifying read build verify⟩
        | ok _ =>
            cases source_eq : table.source (sourceNames config input) with
            | error fault => exact Or.inr ⟨_, .rendering read build verify (by rw [source_eq]; rfl)⟩
            | ok source => exact Or.inl ⟨definitions, table, source, read, build, verify, source_eq⟩

end

section

variable {before : FileTree} {input output : String} {config : Config}

/-- An error before writing begins is that of the generation, and nothing changes. -/
theorem Unprepared.perform_generate {error : Error} (unprepared : Unprepared before input config error) :
    before.perform (generate input output config) = (.error error, before) := by
  rw [generate]
  cases unprepared with
  | reading fails => exact FileTree.perform_bind_of_error fails
  | building read fails =>
      rw [FileTree.perform_bind_of_ok read]
      exact FileTree.perform_bind_of_error (FileTree.perform_lift fails)
  | verifying read build fails =>
      rw [FileTree.perform_bind_of_ok read, FileTree.perform_bind_of_ok (FileTree.perform_lift build)]
      exact FileTree.perform_bind_of_error (FileTree.perform_lift fails)
  | rendering read build verify fails =>
      rw [FileTree.perform_bind_of_ok read, FileTree.perform_bind_of_ok (FileTree.perform_lift build),
        FileTree.perform_bind_of_ok (FileTree.perform_lift verify)]
      exact FileTree.perform_bind_of_error (FileTree.perform_lift fails)

/-- What generation still has to do when writing begins. -/
def writeOut (output : String) (config : Config) (table : Table) (source : String) :
    ExceptT Error (StateM FileTree) Table := do
  replaceText output source
  match config.documentPath with
  | some path => saveTable path table
  | none => pure ()
  return table

theorem Prepared.perform_generate {definitions : Definitions} {table : Table} {source : String}
    (prepared : Prepared before input config definitions table source) :
    before.perform (generate input output config)
      = before.perform (writeOut output config table source) := by
  have source_ok : orFault (table.source (sourceNames config input)) = .ok source := by
    rw [prepared.source_eq]
    rfl
  rw [generate, FileTree.perform_bind_of_ok prepared.read,
    FileTree.perform_bind_of_ok (FileTree.perform_lift prepared.build),
    FileTree.perform_bind_of_ok (FileTree.perform_lift prepared.verify),
    FileTree.perform_bind_of_ok (FileTree.perform_lift source_ok)]
  rfl

end

section

variable (before : FileTree) (output : String) (config : Config) (table : Table) (source : String)

/-- How writing goes: what comes of it, and the tree that it leaves. -/
inductive WriteOut : Except Error Table × FileTree → Prop where
  /-- The program can not be put in its place. -/
  | programFailed {after : FileTree} {error : Error}
      (program : before.replaceFile output (Text.bytes source) = (after, .error error)) :
      WriteOut (.error error, after)
  /-- The program is in its place, but the document can not be put in its own. -/
  | documentFailed {between after : FileTree} {path : String} {error : Error}
      (program : before.replaceFile output (Text.bytes source) = (between, .ok ()))
      (documentPath : config.documentPath = some path)
      (document : between.replaceFile path (Text.bytes table.documentText) = (after, .error error)) :
      WriteOut (.error error, after)
  /-- No document is asked for. -/
  | programOnly {after : FileTree}
      (program : before.replaceFile output (Text.bytes source) = (after, .ok ()))
      (documentPath : config.documentPath = none) : WriteOut (.ok table, after)
  | both {between after : FileTree} {path : String}
      (program : before.replaceFile output (Text.bytes source) = (between, .ok ()))
      (documentPath : config.documentPath = some path)
      (document : between.replaceFile path (Text.bytes table.documentText) = (after, .ok ())) :
      WriteOut (.ok table, after)

theorem writeOut_outcome :
    WriteOut before output config table source (before.perform (writeOut output config table source)) := by
  rw [writeOut]
  rcases program : before.replaceFile output (Text.bytes source) with ⟨between, error | _⟩
  · rw [FileTree.perform_bind_of_error (FileTree.perform_replaceText program)]
    exact .programFailed program
  · rw [FileTree.perform_bind_of_ok (FileTree.perform_replaceText program)]
    cases documentPath : config.documentPath with
    | none => exact .programOnly program documentPath
    | some path =>
        dsimp only [saveTable]
        rcases document : between.replaceFile path (Text.bytes table.documentText)
          with ⟨after, error | _⟩
        · rw [FileTree.perform_bind_of_error (FileTree.perform_replaceText document)]
          exact .documentFailed program documentPath document
        · rw [FileTree.perform_bind_of_ok (FileTree.perform_replaceText document)]
          exact .both program documentPath document

end

/-- Generation ends before writing begins and changes nothing, or it ends as writing does. -/
theorem generate_course (before : FileTree) (input output : String) (config : Config) :
    (∃ error, Unprepared before input config error
        ∧ before.perform (generate input output config) = (.error error, before))
      ∨ ∃ definitions table source, Prepared before input config definitions table source
        ∧ WriteOut before output config table source (before.perform (generate input output config)) := by
  rcases prepared_or_unprepared before input config with
    ⟨definitions, table, source, prepared⟩ | ⟨error, unprepared⟩
  · refine Or.inr ⟨definitions, table, source, prepared, ?_⟩
    rw [prepared.perform_generate]
    exact writeOut_outcome before output config table source
  · exact Or.inl ⟨error, unprepared, unprepared.perform_generate⟩

/-- A working directory with a file of two keywords in it, and a directory. -/
def twoWordsTree : FileTree :=
  ((FileTree.ofWorkingDirectory ["work"]).insert ["words", "work"]
    (.file (Text.bytes "if If\nint Int\n"))).insert ["taken", "work"] .directory

end KeywordHash
