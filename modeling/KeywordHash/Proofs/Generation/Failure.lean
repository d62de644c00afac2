/-
Module: KeywordHash.Proofs.Generation.Failure
Layer: Proofs
Purpose: What a generation that fails leaves behind (`failed_generation_keeps`). An error before writing
  begins changes nothing. If the program can not be put in its place, directories may have been made on
  the way to it, and every file is as it was. If only the document can not be put in its place, the
  program is there as a whole, and every other file is as it was.
Imports: KeywordHash.Proofs.Files.Replacement, KeywordHash.Proofs.Generation.Course
Trusted boundary: none
Main exports: FailedGeneration, failed_generation_keeps
Open obligations: none
-/
import KeywordHash.Proofs.Files.Replacement
import KeywordHash.Proofs.Generation.Course

namespace KeywordHash

/-- How a generation on a tree fails with an error, and the tree that it leaves. -/
inductive FailedGeneration (before : FileTree) (input output : String) (config : Config)
    (error : Error) : FileTree → Prop where
  /-- Nothing was written: the error is that of an earlier stage. -/
  | unprepared (fails : Unprepared before input config error) :
      FailedGeneration before input output config error before
  /-- The program can not be put in its place. -/
  | program {definitions : Definitions} {table : Table} {source : String} {after : FileTree}
      (prepared : Prepared before input config definitions table source)
      (fails : before.replaceFile output (Text.bytes source) = (after, .error error))
      (keeps : before.KeepsBut after ∅ (before.wayTo output)) :
      FailedGeneration before input output config error after
  /-- The program is in its place, but the document can not be put in its own. -/
  | document {definitions : Definitions} {table : Table} {source path : String}
      {between after : FileTree} (prepared : Prepared before input config definitions table source)
      (program : before.replaceFile output (Text.bytes source) = (between, .ok ()))
      (documentPath : config.documentPath = some path)
      (fails : between.replaceFile path (Text.bytes table.documentText) = (after, .error error))
      (isThere : after.read output = .ok (Text.bytes source))
      (keeps : before.KeepsBut after {before.destination output}
        (before.wayTo output ∪ before.wayTo path)) :
      FailedGeneration before input output config error after

/-- If writing fails, it fails at the program or at the document. -/
theorem failedGeneration_of_writeOut {before after : FileTree} {input output : String} {config : Config}
    {error : Error} {definitions : Definitions} {table : Table} {source : String}
    (prepared : Prepared before input config definitions table source)
    (course : WriteOut before output config table source (.error error, after)) :
    FailedGeneration before input output config error after := by
  cases course with
  | programFailed program =>
      exact .program prepared program (FileTree.keepsBut_of_replaceFile_error program)
  | documentFailed program documentPath document =>
      obtain ⟨keeps, read⟩ := FileTree.keepsBut_of_replaceFile_ok program
      have keepsNext := FileTree.keepsBut_of_replaceFile_error document
      have both := keeps.trans keepsNext
      rw [FileTree.wayTo_congr keeps.workingDirectory_eq, Set.union_empty] at both
      have isThere := keepsNext.read read (Set.notMem_empty _)
      exact .document prepared program documentPath document isThere both

/-- Every file that is left behind is one that was there before, with the same content, or it is the
    program as a whole. -/
theorem FailedGeneration.file_of_file {before after : FileTree} {input output : String}
    {config : Config} {error : Error} (failed : FailedGeneration before input output config error after)
    {location : Location} {content : List UInt8} (h : after.find? location = some (.file content)) :
    before.find? location = some (.file content)
      ∨ location = before.destination output ∧ ∃ definitions table source,
          Prepared before input config definitions table source ∧ content = Text.bytes source := by
  cases failed with
  | unprepared _ => exact Or.inl h
  | program _ _ keeps =>
      rcases keeps.file_of_file h with same | written
      · exact Or.inl same
      · exact absurd written (Set.notMem_empty _)
  | document prepared _ _ _ isThere keeps =>
      rcases keeps.file_of_file h with same | written
      · exact Or.inl same
      · have stands := (FileTree.read_eq_ok_iff.1 isThere).2
        rw [FileTree.destination_congr keeps.workingDirectory_eq, ← Set.mem_singleton_iff.1 written, h]
          at stands
        cases stands
        exact Or.inr ⟨written, _, _, _, prepared, rfl⟩

/-- A generation that fails leaves the tree as it was, but for the program, if it was put in its place
    before the failure, and for directories on the way to a file that was to be written. Neither a part
    of a file nor a temporary file is left behind. -/
theorem failed_generation_keeps {before after : FileTree} {input output : String} {config : Config}
    {error : Error} (h : before.perform (generate input output config) = (.error error, after)) :
    FailedGeneration before input output config error after
      ∧ ∀ location content, after.find? location = some (.file content) →
        before.find? location = some (.file content)
          ∨ location = before.destination output ∧ ∃ definitions table source,
              Prepared before input config definitions table source
                ∧ content = Text.bytes source := by
  have failed : FailedGeneration before input output config error after := by
    rcases generate_course before input output config with
      ⟨_, unprepared, run⟩ | ⟨definitions, table, source, prepared, course⟩
    · cases h.symm.trans run
      exact .unprepared unprepared
    · rw [h] at course
      exact failedGeneration_of_writeOut prepared course
  exact ⟨failed, fun _ _ => failed.file_of_file⟩

/-- Settings that ask for the document in the place of the directory. -/
def takenConfig : Config where
  documentPath := some "taken"

/-- The document can not take the place of the directory. -/
theorem failed_generation_keeps_taken :
    twoWordsTree.perform (generate "words" "words.rs" takenConfig)
        = (.error (.file "taken" .isDirectory),
          (twoWordsTree.perform (generate "words" "words.rs" takenConfig)).2)
      ∧ FailedGeneration twoWordsTree "words" "words.rs" takenConfig (.file "taken" .isDirectory)
          (twoWordsTree.perform (generate "words" "words.rs" takenConfig)).2 := by
  have fails : (twoWordsTree.perform (generate "words" "words.rs" takenConfig)).1
      = .error (.file "taken" .isDirectory) := by
    decide +kernel
  have run : twoWordsTree.perform (generate "words" "words.rs" takenConfig)
      = (.error (.file "taken" .isDirectory),
        (twoWordsTree.perform (generate "words" "words.rs" takenConfig)).2) :=
    Prod.ext fails rfl
  exact ⟨run, (failed_generation_keeps run).1⟩

/-- Only the program is new. -/
example : (twoWordsTree.perform (generate "words" "words.rs" takenConfig)).2.entries.map Prod.fst
    = [["words.rs", "work"], ["taken", "work"], ["words", "work"], ["work"]] := by
  decide +kernel

end KeywordHash
