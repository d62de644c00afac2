/-
Module: KeywordHash.Proofs.Files.Replacement
Layer: Proofs
Purpose: What is left behind when a file is replaced (`replaceFile_outcome`). Directories may have been
  made on the way to it, even if the replacement fails later on. Apart from these, either the whole
  content is at the path and everything else is as it was, or everything is as it was. The content is
  written where nothing was (`Adds`), so a write that fails has touched no file, however much of the
  content it stored, and the temporary file is gone in any case.
Imports: KeywordHash.Proofs.Files.Tree
Trusted boundary: none
Main exports: FileTree.keepsBut_makeDirectories, FileTree.targetOf_eq_ok, FileTree.keepsBut_of_taken,
  FileTree.Adds, FileTree.Adds.write, FileTree.Adds.rename, FileTree.Adds.erase,
  FileTree.Replacement, FileTree.replaceFile_outcome,
  FileTree.keepsBut_of_replaceFile_ok, FileTree.keepsBut_of_replaceFile_error, FileTree.putFile_outcome
Open obligations: none
-/
import KeywordHash.Proofs.Files.Tree

namespace KeywordHash.FileTree

variable {tree before after : FileTree} {location : Location} {path : String} {content : List UInt8}

/-! ### Directories on the way -/

/-- A directory is entered where its name leads. It was there, or it was made where nothing had been. -/
theorem enterDirectory_eq_ok {piece : String} {next : Location}
    (h : tree.enterDirectory location piece = .ok (after, next)) :
    next = location.next piece
      ∧ (after = tree ∨ tree.find? next = none ∧ after = tree.insert next .directory) := by
  rw [enterDirectory] at h
  obtain ⟨reached, hFollow, hEnter⟩ := exists_ok_of_bind h
  have leads := (follow_eq_ok hFollow).2
  cases hEntry : tree.find? reached with
  | none =>
      simp only [hEntry] at hEnter
      cases hEnter
      exact ⟨leads, Or.inr ⟨hEntry, rfl⟩⟩
  | some entry =>
      cases entry with
      | file content =>
          simp only [hEntry] at hEnter
          cases hEnter
      | directory =>
          simp only [hEntry] at hEnter
          cases hEnter
          exact ⟨leads, Or.inl rfl⟩

/-- A new directory where nothing had been changes nothing else. -/
theorem keepsBut_insert_directory {made : Set Location} (absent : tree.find? location = none)
    (member : location ∈ made) : tree.KeepsBut (tree.insert location .directory) ∅ made := by
  have isMade : (tree.insert location .directory).find? location = some .directory := by
    apply find?_insert_self
    rintro rfl
    cases absent
  constructor
  case workingDirectory_eq => rfl
  case find?_eq =>
    intro other _
    by_cases same : other = location
    · rw [same]
      exact Or.inr ⟨absent, isMade, member⟩
    · exact Or.inl (find?_insert_of_ne same)
  case directory =>
    intro other isDirectory
    by_cases same : other = location
    · rw [same]
      exact isMade
    · exact (find?_insert_of_ne same).trans isDirectory

section

variable {made : Set Location}

/-- The directories that are made one by one are those that the leading pieces spell. -/
theorem keepsBut_makeEachFrom {pieces : List String}
    (spelled : ∀ leading, leading <+: pieces → leading.foldl Location.next location ∈ made) :
    tree.KeepsBut (tree.makeEachFrom location pieces).1 ∅ made := by
  induction pieces generalizing tree location with
  | nil => exact .refl tree
  | cons piece rest ih =>
      rw [makeEachFrom]
      rcases hEnter : tree.enterDirectory location piece with failure | ⟨entered, next⟩
      · exact .refl tree
      · obtain ⟨leads, stays⟩ := enterDirectory_eq_ok hEnter
        have onWay : next ∈ made := leads ▸ spelled [piece] ⟨rest, rfl⟩
        have first : tree.KeepsBut entered ∅ made := by
          rcases stays with rfl | ⟨absent, rfl⟩
          · exact .refl _
          · exact keepsBut_insert_directory absent onWay
        have others : entered.KeepsBut (entered.makeEachFrom next rest).1 ∅ made := by
          apply ih
          intro leading isLeading
          rw [leads]
          exact spelled (piece :: leading) (List.cons_prefix_cons.2 ⟨rfl, isLeading⟩)
        have both := first.trans others
        rwa [Set.union_self, Set.union_self] at both

/-- The same holds if the way is only followed as long as there is one. -/
theorem keepsBut_makeDirectoriesFrom {pieces : List String}
    (spelled : ∀ leading, leading <+: pieces → leading.foldl Location.next location ∈ made) :
    tree.KeepsBut (tree.makeDirectoriesFrom location pieces).1 ∅ made := by
  induction pieces generalizing location with
  | nil => exact .refl tree
  | cons piece rest ih =>
      cases rest with
      | nil => exact keepsBut_makeEachFrom spelled
      | cons second others =>
          rw [makeDirectoriesFrom]
          · cases hFollow : tree.follow location piece with
            | error failure => exact .refl tree
            | ok next =>
                cases hEntry : tree.find? next with
                | none =>
                    simp only [hEntry]
                    exact keepsBut_makeEachFrom spelled
                | some entry =>
                    simp only [hEntry]
                    apply ih
                    intro leading isLeading
                    rw [(follow_eq_ok hFollow).2]
                    exact spelled (piece :: leading) (List.cons_prefix_cons.2 ⟨rfl, isLeading⟩)
          · exact List.cons_ne_nil _ _

end

/-- Making the directories for a file changes nothing but that they are there. -/
theorem keepsBut_makeDirectories (tree : FileTree) (path : String) :
    tree.KeepsBut (tree.makeDirectories (Path.parent path)).1 ∅ (tree.wayTo path) := by
  rw [makeDirectories]
  cases admitPath (Path.parent path) with
  | error failure => exact .refl tree
  | ok _ =>
      apply keepsBut_makeDirectoriesFrom
      intro leading isLeading
      exact ⟨leading, isLeading, rfl⟩

/-! ### The temporary file -/

/-- There is nothing at the location of a new temporary file. -/
theorem temporaryIn_eq_ok {directory : String} {temporary : TemporaryFile}
    (h : tree.temporaryIn directory = .ok temporary) : tree.find? temporary.location = none := by
  rw [temporaryIn] at h
  by_cases tooLong : Path.limit < (tree.absolute directory).utf8ByteSize + 1 + temporaryNameSize
  · rw [if_pos tooLong] at h
    cases h
  · rw [if_neg tooLong] at h
    obtain ⟨above, _, hTemporary⟩ := exists_ok_of_bind h
    cases hTemporary
    rw [find?_of_ne_nil (List.cons_ne_nil _ _), List.lookup_eq_none_iff]
    intro item member
    rw [bne_iff_ne]
    intro same
    apply freshName_not_mem (tree.entries.flatMap (·.1))
    rw [List.mem_flatMap]
    exact ⟨item, member, same ▸ List.mem_cons_self⟩

/-- A file with the content has been added at a location at which nothing was, and nothing else has
    changed. -/
structure Adds (before after : FileTree) (location : Location) (content : List UInt8) : Prop where
  workingDirectory_eq : after.workingDirectory = before.workingDirectory
  absent : before.find? location = none
  isThere : after.find? location = some (.file content)
  same : ∀ other, other ≠ location → after.find? other = before.find? other

theorem adds_insert (absent : tree.find? location = none) :
    tree.Adds (tree.insert location (.file content)) location content where
  workingDirectory_eq := rfl
  absent := absent
  isThere := by
    apply find?_insert_self
    rintro rfl
    cases absent
  same other other_ne := find?_insert_of_ne other_ne

namespace Adds

theorem location_ne_nil (adds : before.Adds after location content) : location ≠ [] := by
  rintro rfl
  cases adds.absent

/-- A file with other content in its place has been added, too. -/
theorem insert (adds : before.Adds after location content) (other : List UInt8) :
    before.Adds (after.insert location (.file other)) location other where
  workingDirectory_eq := adds.workingDirectory_eq
  absent := adds.absent
  isThere := find?_insert_self adds.location_ne_nil
  same elsewhere elsewhere_ne := (find?_insert_of_ne elsewhere_ne).trans (adds.same elsewhere elsewhere_ne)

/-- A write to the file stores all of the content, or it fails and stores a part of it. -/
theorem write (adds : before.Adds tree location content) (other : List UInt8) :
    ∃ after stored, before.Adds after location stored ∧ stored <+: other
      ∧ (tree.write location other = (after, .ok ()) ∧ stored = other
        ∨ ∃ failure, tree.write location other = (after, .error failure)) := by
  rw [FileTree.write]
  have later : before.Adds { tree with writeFaults := tree.writeFaults.tail } location content :=
    ⟨adds.workingDirectory_eq, adds.absent, adds.isThere, adds.same⟩
  cases tree.writeFaults.head?.join with
  | none => exact ⟨_, other, later.insert other, List.prefix_rfl, Or.inl ⟨rfl, rfl⟩⟩
  | some fault =>
      exact ⟨_, _, later.insert _, List.take_prefix fault.stored other, Or.inr ⟨fault.failure, rfl⟩⟩

/-- The file leaves no trace if it is erased again. -/
theorem find?_erase (adds : before.Adds tree location content) (other : Location) :
    (tree.erase location).find? other = before.find? other := by
  by_cases here : other = location
  · rw [here, adds.absent]
    exact find?_erase_self adds.location_ne_nil
  · rw [find?_erase_of_ne here, adds.same other here]

theorem erase {written made : Set Location} (adds : before.Adds tree location content) :
    before.KeepsBut (tree.erase location) written made :=
  .of_find?_eq adds.workingDirectory_eq adds.find?_erase

end Adds

/-! ### Taking the place of the target -/

/-- A path for a file can be followed to a location. No directory is there. -/
theorem targetOf_eq_ok {target : Location} (h : tree.targetOf path = .ok target) :
    (Path.pieces path).foldlM tree.follow (tree.start path) = .ok target
      ∧ tree.find? target ≠ some .directory := by
  rw [targetOf] at h
  cases hPieces : (Path.pieces path).reverse.dropWhile (· = "") with
  | nil =>
      simp only [hPieces] at h
      cases h
  | cons name earlier =>
      simp only [hPieces] at h
      obtain ⟨above, hAbove, hName⟩ := exists_ok_of_bind h
      obtain ⟨location, hFollow, hChecks⟩ := exists_ok_of_bind hName
      split_ifs at hChecks with dots slash
      have named : name ≠ "" := by
        have head := List.head?_dropWhile_not (fun piece : String => decide (piece = ""))
          (Path.pieces path).reverse
        rw [hPieces] at head
        simpa using head
      -- The last piece is not empty, so none was dropped.
      have pieces_eq : (Path.pieces path).reverse = name :: earlier := by
        cases hReverse : (Path.pieces path).reverse with
        | nil =>
            rw [hReverse] at hPieces
            cases hPieces
        | cons last others =>
            rw [hReverse] at hPieces slash
            have kept : last ≠ "" := fun empty => slash (by rw [empty]; rfl)
            rwa [List.dropWhile_cons_of_neg (by simpa using kept)] at hPieces
      have spelled : Path.pieces path = earlier.reverse ++ [name] := by
        rw [← List.reverse_reverse (Path.pieces path), pieces_eq, List.reverse_cons]
      have reached : (Path.pieces path).foldlM tree.follow (tree.start path) = .ok location := by
        rw [spelled, List.foldlM_append, hAbove, ok_bind, List.foldlM_cons, hFollow, ok_bind]
        rfl
      split at hChecks
      · cases hChecks
      · rename_i other
        cases hChecks
        exact ⟨reached, other⟩

/-- What is at the source is moved to the target of the path. -/
theorem rename_eq_ok {source : Location} (h : tree.rename source path = .ok after) :
    ∃ target entry, admitPath path = .ok () ∧ tree.targetOf path = .ok target
      ∧ tree.find? source = some entry ∧ after = (tree.erase source).insert target entry := by
  rw [rename] at h
  obtain ⟨_, admitted, hTarget⟩ := exists_ok_of_bind h
  obtain ⟨target, hTargetOf, hMove⟩ := exists_ok_of_bind hTarget
  cases hEntry : tree.find? source with
  | none =>
      simp only [hEntry] at hMove
      cases hMove
  | some entry =>
      simp only [hEntry] at hMove
      cases hMove
      exact ⟨target, entry, admitted, hTargetOf, rfl, rfl⟩

/-- The empty path is no path for a file. -/
theorem ne_empty_of_targetOf {target : Location} (h : tree.targetOf path = .ok target) : path ≠ "" := by
  rintro rfl
  cases h

/-- If the content is at the location that a path leads to, and everything else is as it was, then nothing
    but this location was written, and the path leads to the content. -/
theorem keepsBut_of_taken {target : Location} (admitted : admitPath path = .ok ()) (nonempty : path ≠ "")
    (reached : (Path.pieces path).foldlM tree.follow (tree.start path) = .ok target)
    (noDirectory : tree.find? target ≠ some .directory)
    (workingDirectory_eq : after.workingDirectory = tree.workingDirectory)
    (isThere : after.find? target = some (.file content))
    (same : ∀ location, location ≠ target → after.find? location = tree.find? location) :
    tree.KeepsBut after {tree.destination path} ∅ ∧ after.read path = .ok content := by
  have leads : target = tree.destination path := eq_foldl_next_of_follow reached
  have directory : ∀ location, tree.find? location = some .directory →
      after.find? location = some .directory := by
    intro location isDirectory
    rw [same location, isDirectory]
    rintro rfl
    exact noDirectory isDirectory
  have keeps : tree.KeepsBut after {tree.destination path} ∅ := by
    refine ⟨workingDirectory_eq, ?_, directory⟩
    intro location unwritten
    exact Or.inl (same location (leads ▸ unwritten))
  refine ⟨keeps, ?_⟩
  rw [read_eq_ok_iff, destination_congr workingDirectory_eq, ← leads]
  exact ⟨keeps.locate (locate_eq_ok_iff.2 ⟨admitted, nonempty, reached⟩), isThere⟩

/-- A file that was added takes the place of the target if it is moved there. Nothing else changes, and the
    path leads to the file. -/
theorem Adds.rename (adds : before.Adds tree location content) (h : tree.rename location path = .ok after) :
    before.KeepsBut after {before.destination path} ∅ ∧ after.read path = .ok content := by
  obtain ⟨target, entry, admitted, hTargetOf, hEntry, after_eq⟩ := rename_eq_ok h
  cases adds.isThere.symm.trans hEntry
  obtain ⟨reached, noDirectory⟩ := targetOf_eq_ok hTargetOf
  rw [start_congr adds.workingDirectory_eq] at reached
  -- The file that was added is no directory, so the way to the target does not need it.
  have kept : ∀ other, tree.find? other = some .directory → before.find? other = some .directory := by
    intro other isDirectory
    rw [← adds.same other, isDirectory]
    rintro rfl
    rw [adds.isThere] at isDirectory
    cases isDirectory
  have reachedBefore := foldlM_follow_of_directories kept reached
  have noDirectoryBefore : before.find? target ≠ some .directory := by
    by_cases here : target = location
    · rw [here, adds.absent]
      exact (Option.some_ne_none _).symm
    · rwa [← adds.same target here]
  apply keepsBut_of_taken admitted (ne_empty_of_targetOf hTargetOf) reachedBefore noDirectoryBefore
  · rw [after_eq]
    exact adds.workingDirectory_eq
  · rw [after_eq]
    exact find?_insert_self (ne_nil_of_find? noDirectory)
  · intro other other_ne
    rw [after_eq, find?_insert_of_ne other_ne, adds.find?_erase]

/-! ### The replacement as a whole -/

/-- What becomes of a tree in which a file is to be replaced. Directories may have been made on the way.
    Apart from these, either the whole content is at the path and everything else is as it was, or the
    replacement failed and everything is as it was. -/
inductive Replacement (before : FileTree) (path : String) (content : List UInt8) :
    FileTree × Except Error Unit → Prop where
  | done {after : FileTree} (keeps : before.KeepsBut after {before.destination path} (before.wayTo path))
      (read : after.read path = .ok content) : Replacement before path content (after, .ok ())
  | failed {after : FileTree} {error : Error} (keeps : before.KeepsBut after ∅ (before.wayTo path)) :
      Replacement before path content (after, .error error)

/-- What was done before a replacement, if nothing but directories on the way was made, belongs to it. -/
theorem Replacement.after_making {made : FileTree} {outcome : FileTree × Except Error Unit}
    (keeps : before.KeepsBut made ∅ (before.wayTo path)) (replaced : made.Replacement path content outcome) :
    before.Replacement path content outcome := by
  cases replaced with
  | done keepsNext read =>
      have both := keeps.trans keepsNext
      rw [destination_congr keeps.workingDirectory_eq, wayTo_congr keeps.workingDirectory_eq,
        Set.empty_union, Set.union_self] at both
      exact .done both read
  | failed keepsNext =>
      have both := keeps.trans keepsNext
      rw [wayTo_congr keeps.workingDirectory_eq, Set.empty_union, Set.union_self] at both
      exact .failed both

section

variable {α : Type} {program : ExceptT Error (StateM FileTree) α}

theorem run_reportedFor {operation : StateM FileTree (Except FileFailure α)}
    {result : Except FileFailure α} (h : operation.run before = (result, after)) :
    (reportedFor path operation).run.run before = (result.mapError (.file path), after) := by
  rw [reportedFor, ExceptT.run_mk, StateT.run_bind, h]
  rfl

theorem run_removedOnError_of_ok (temporary : TemporaryFile) {a : α}
    (h : program.run.run before = (.ok a, after)) :
    (removedOnError (m := StateM FileTree) temporary program).run.run before = (.ok a, after) := by
  rw [removedOnError, ExceptT.run_mk, StateT.run_bind, h]
  rfl

theorem run_removedOnError_of_error (temporary : TemporaryFile) {error : Error}
    (h : program.run.run before = (.error error, after)) :
    (removedOnError (m := StateM FileTree) temporary program).run.run before
      = (.error error, after.erase temporary.location) := by
  rw [removedOnError, ExceptT.run_mk, StateT.run_bind, h]
  rfl

end

/-- The content is written to a temporary file that was added, and this takes the place of the target. If
    either fails, the temporary file is removed. -/
theorem replacement_of_created {temporary : TemporaryFile} (created : before.Adds tree temporary.location []) :
    before.Replacement path content
      ((removedOnError (m := StateM FileTree) temporary do
        reportedFor temporary.path (FileSystem.write (m := StateM FileTree) temporary content)
        reportedFor path (FileSystem.persist (m := StateM FileTree) temporary path)).run.run tree).swap := by
  have writes : (FileSystem.write (m := StateM FileTree) temporary content).run tree
      = (tree.write temporary.location content).swap := rfl
  obtain ⟨written, stored, adds, _, ⟨hWrite, rfl⟩ | ⟨failure, hWrite⟩⟩ := created.write content
  · rw [hWrite] at writes
    let moving := reportedFor path (FileSystem.persist (m := StateM FileTree) temporary path)
    have goesOn : (do
        reportedFor temporary.path (FileSystem.write (m := StateM FileTree) temporary stored)
        moving).run.run tree = moving.run.run written := run_bind_of_ok (run_reportedFor writes)
    cases hRename : written.rename temporary.location path with
    | ok after =>
        have persists : (FileSystem.persist (m := StateM FileTree) temporary path).run written
            = (.ok (), after) := by
          simp only [FileSystem.persist, StateT.run, hRename]
        rw [run_removedOnError_of_ok temporary (goesOn.trans (run_reportedFor persists))]
        obtain ⟨keeps, read⟩ := adds.rename hRename
        exact .done (keeps.mono subset_rfl (Set.empty_subset _)) read
    | error failure =>
        have persists : (FileSystem.persist (m := StateM FileTree) temporary path).run written
            = (.error failure, written) := by
          simp only [FileSystem.persist, StateT.run, hRename]
        rw [run_removedOnError_of_error temporary (goesOn.trans (run_reportedFor persists))]
        exact .failed adds.erase
  · rw [hWrite] at writes
    rw [run_removedOnError_of_error temporary (run_bind_of_error (run_reportedFor writes))]
    exact .failed adds.erase

theorem replaceFile_outcome (before : FileTree) (path : String) (content : List UInt8) :
    Replacement before path content (before.replaceFile path content) := by
  let directory := Path.parent path
  have keeps := keepsBut_makeDirectories before path
  have makes : (FileSystem.makeDirectories (m := StateM FileTree) directory).run before
      = (before.makeDirectories directory).swap := rfl
  rw [replaceFile, replaceInSteps]
  rcases hMake : before.makeDirectories directory with ⟨made, failure | _⟩
  · rw [hMake] at keeps makes
    rw [run_bind_of_error (run_reportedFor makes)]
    exact .failed keeps
  · rw [hMake] at keeps makes
    rw [run_bind_of_ok (run_reportedFor makes)]
    apply Replacement.after_making keeps
    cases hTemporary : made.temporaryIn directory with
    | error failure =>
        have creates : (FileSystem.createTemporary (m := StateM FileTree) directory).run made
            = (.error failure, made) := by
          simp only [FileSystem.createTemporary, StateT.run, hTemporary]
        rw [run_bind_of_error (run_reportedFor creates)]
        exact .failed (.refl made)
    | ok temporary =>
        have creates : (FileSystem.createTemporary (m := StateM FileTree) directory).run made
            = (.ok temporary, made.insert temporary.location (.file [])) := by
          simp only [FileSystem.createTemporary, StateT.run, hTemporary]
        rw [run_bind_of_ok (run_reportedFor creates)]
        exact replacement_of_created (adds_insert (temporaryIn_eq_ok hTemporary))

/-- Where there is room for two bytes only, the file stays as it was, and nothing stands beside it. -/
example :
    let tree : FileTree := {
      entries := [(["words"], .file [105, 102])]
      writeFaults := [some ⟨2, .other "no space left"⟩] }
    (tree.replaceFile "words" [102, 111, 114]).2.isOk = false
      ∧ (tree.replaceFile "words" [102, 111, 114]).1.entries = tree.entries := by
  decide +kernel

/-- A replacement that succeeds puts the whole content at the path. -/
theorem keepsBut_of_replaceFile_ok (h : before.replaceFile path content = (after, .ok ())) :
    before.KeepsBut after {before.destination path} (before.wayTo path)
      ∧ after.read path = .ok content := by
  have outcome := before.replaceFile_outcome path content
  rw [h] at outcome
  cases outcome with
  | done keeps read => exact ⟨keeps, read⟩

/-- A replacement that fails leaves at most directories behind that it made on the way. -/
theorem keepsBut_of_replaceFile_error {error : Error}
    (h : before.replaceFile path content = (after, .error error)) :
    before.KeepsBut after ∅ (before.wayTo path) := by
  have outcome := before.replaceFile_outcome path content
  rw [h] at outcome
  cases outcome with
  | failed keeps => exact keeps

/-- Putting a file in place of another comes to the same, except that the file is written where it is. -/
theorem putFile_outcome (before : FileTree) (path : String) (content : List UInt8) :
    Replacement before path content (before.putFile path content) := by
  have keeps := keepsBut_makeDirectories before path
  rw [putFile]
  rcases hMake : before.makeDirectories (Path.parent path) with ⟨made, failure | _⟩
  · rw [hMake] at keeps
    exact .failed keeps
  · rw [hMake] at keeps
    apply Replacement.after_making keeps
    cases hTarget : admitPath path >>= fun _ => made.targetOf path with
    | error failure =>
        simp only [hTarget]
        exact .failed (.refl made)
    | ok target =>
        simp only [hTarget]
        obtain ⟨_, admitted, hTargetOf⟩ := exists_ok_of_bind hTarget
        obtain ⟨reached, noDirectory⟩ := targetOf_eq_ok hTargetOf
        have put : made.KeepsBut (made.insert target (.file content)) {made.destination path} ∅
            ∧ (made.insert target (.file content)).read path = .ok content := by
          apply keepsBut_of_taken admitted (ne_empty_of_targetOf hTargetOf) reached noDirectory
          · rfl
          · exact find?_insert_self (ne_nil_of_find? noDirectory)
          · intro location location_ne
            exact find?_insert_of_ne location_ne
        exact .done (put.1.mono subset_rfl (Set.empty_subset _)) put.2

end KeywordHash.FileTree
