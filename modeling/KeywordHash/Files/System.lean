/-
Module: KeywordHash.Files.System
Layer: Files
Purpose: How a file is replaced as a whole, in the operations of a file system. The new content is written
  to a temporary file beside the target, which then takes the place of the target. Whatever fails once
  there is a temporary file, it is removed.
Imports: KeywordHash.Error, KeywordHash.Files.Path
Trusted boundary: none
Main exports: FileSystem, replaceInSteps
Open obligations: none
-/
import KeywordHash.Error
import KeywordHash.Files.Path

namespace KeywordHash

/-- The operations of a file system by which a file is replaced. -/
class FileSystem (m : Type → Type) where
  /-- What a temporary file is known by. -/
  Temporary : Type
  /-- The path of a temporary file, as it is told in errors. -/
  pathOf : Temporary → String
  /-- Make the directory at a path, and those above it that are missing. -/
  makeDirectories : String → m (Except FileFailure Unit)
  /-- Make an empty file with a name of its own in a directory. -/
  createTemporary : String → m (Except FileFailure Temporary)
  /-- Write content to a temporary file and wait until it is stored. A failure may leave a part of it. -/
  write : Temporary → List UInt8 → m (Except FileFailure Unit)
  /-- Move a temporary file to a path, in place of a file that is there. -/
  persist : Temporary → String → m (Except FileFailure Unit)
  remove : Temporary → m Unit

variable {m : Type → Type} [Monad m] [FileSystem m] {α : Type}

/-- An operation whose failure is reported for a path. -/
def reportedFor (path : String) (operation : m (Except FileFailure α)) : ExceptT Error m α :=
  ExceptT.mk do return (← operation).mapError (.file path)

/-- If the operation fails, the temporary file is removed. -/
def removedOnError (temporary : FileSystem.Temporary m) (operation : ExceptT Error m α) :
    ExceptT Error m α :=
  ExceptT.mk do
    match ← operation.run with
    | .ok a => return .ok a
    | .error error => do
        FileSystem.remove temporary
        return .error error

/-- Put content at a path, whole or not at all. Directories that are missing on the way are made first. -/
def replaceInSteps (path : String) (content : List UInt8) : ExceptT Error m Unit := do
  let directory := Path.parent path
  reportedFor directory (FileSystem.makeDirectories directory)
  let temporary : FileSystem.Temporary m ← reportedFor directory (FileSystem.createTemporary directory)
  removedOnError temporary do
    reportedFor (FileSystem.pathOf temporary) (FileSystem.write temporary content)
    reportedFor path (FileSystem.persist temporary path)

end KeywordHash
