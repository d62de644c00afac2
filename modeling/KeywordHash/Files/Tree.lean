/-
Module: KeywordHash.Files.Tree
Layer: Files
Purpose: A tree of files and directories, and the operations on it that a program needs. Writing to a
  temporary file may fail when a part of the content is stored, so a file that is to hold its old or its
  new content, and never a part of one, has to be replaced in steps.
Imports: KeywordHash.Error, KeywordHash.Files.Path, KeywordHash.Files.System
Trusted boundary: the tree stands for the file system; renaming is taken to be a single step
Main exports: Location, Entry, WriteFault, FileTree, FileTree.ofWorkingDirectory, FileTree.find?,
  FileTree.read, FileTree.write, FileTree.replaceFile, FileTree.putFile, FileTree.makeDirectories,
  FileTree.listing
Open obligations: none
-/
import KeywordHash.Error
import KeywordHash.Files.Path
import KeywordHash.Files.System

namespace KeywordHash

/-- The names that lead from a file or directory up to the root, its own first. -/
abbrev Location := List String

/-- What is at a location. -/
inductive Entry where
  | file (content : List UInt8)
  | directory
deriving DecidableEq, Repr

/-- A write that fails. -/
structure WriteFault where
  /-- How many bytes are stored before the write fails. -/
  stored : Nat
  failure : FileFailure
deriving DecidableEq, Repr

/-- Files and directories below a root. The root itself is a directory and has no entry. -/
structure FileTree where
  entries : List (Location × Entry) := []
  /-- Where a path begins that has no slash in front. -/
  workingDirectory : Location := []
  /-- What becomes of the next writes to temporary files: each may fail. All later ones succeed. -/
  writeFaults : List (Option WriteFault) := []
deriving DecidableEq, Repr

namespace FileTree

/-- Entries for a directory and the directories above it. -/
def entriesTo : Location → List (Location × Entry)
  | [] => []
  | name :: above => (name :: above, .directory) :: entriesTo above

/-- The tree of the working directory and the directories above it. -/
def ofWorkingDirectory (location : Location) : FileTree where
  entries := entriesTo location
  workingDirectory := location

/-- What is at the location. -/
def find? (tree : FileTree) (location : Location) : Option Entry :=
  if location = [] then some .directory else tree.entries.lookup location

/-- The tree without what is at the location. -/
def erase (tree : FileTree) (location : Location) : FileTree :=
  { tree with entries := tree.entries.filter (·.1 ≠ location) }

/-- The tree with the entry in place of what is at the location. -/
def insert (tree : FileTree) (location : Location) (entry : Entry) : FileTree :=
  { tree with entries := (location, entry) :: (tree.erase location).entries }

/-! ### Following paths -/

/-- Go on from a location by one piece of a path. Only a directory can be gone on from. -/
def follow (tree : FileTree) (location : Location) (piece : String) :
    Except FileFailure Location :=
  match tree.find? location with
  | none => .error .notFound
  | some (.file _) => .error .notDirectory
  | some .directory =>
      if Path.isIdle piece then
        .ok location
      else if piece = ".." then
        .ok location.tail
      else if Path.isLongName piece then
        .error .nameTooLong
      else
        .ok (piece :: location)

/-- Refuse a path that can not be followed whatever the tree holds. -/
def admitPath (path : String) : Except FileFailure Unit :=
  if Path.hasNull path then
    .error .nullInPath
  else if Path.isLong path then
    .error .nameTooLong
  else
    .ok ()

/-- The location at which a path begins. -/
def start (tree : FileTree) (path : String) : Location :=
  if Path.isAbsolute path then [] else tree.workingDirectory

/-- The location that a path leads to. There may be nothing at it. -/
def locate (tree : FileTree) (path : String) : Except FileFailure Location := do
  admitPath path
  if path = "" then throw .notFound else (Path.pieces path).foldlM tree.follow (tree.start path)

/-- The same path, but from the root. -/
def absolute (tree : FileTree) (path : String) : String :=
  if Path.isAbsolute path then
    path
  else
    String.join (tree.workingDirectory.reverse.map ("/" ++ ·)) ++ "/" ++ path

/-- The content of the file at a path. -/
def read (tree : FileTree) (path : String) : Except FileFailure (List UInt8) := do
  let location ← tree.locate path
  match tree.find? location with
  | none => throw .notFound
  | some .directory => throw .isDirectory
  | some (.file content) => return content

/-! ### Changes -/

/-- Go on from a location by one piece of a path to a directory, and make it if it is missing. -/
def enterDirectory (tree : FileTree) (location : Location) (piece : String) :
    Except FileFailure (FileTree × Location) := do
  let next ← tree.follow location piece
  match tree.find? next with
  | none => return (tree.insert next .directory, next)
  | some .directory => return (tree, next)
  | some (.file _) => throw .alreadyExists

/-- Make the directory at each piece of a path in turn. What was made stays also when a later one can not
    be made. -/
def makeEachFrom (tree : FileTree) (location : Location) :
    List String → FileTree × Except FileFailure Unit
  | [] => (tree, .ok ())
  | piece :: rest =>
      match tree.enterDirectory location piece with
      | .error failure => (tree, .error failure)
      | .ok (tree, next) => tree.makeEachFrom next rest

/-- Make the directory at the end of the pieces of a path. Only the way to it is followed as long as there
    is one: a file on this way is no directory. Where the way ends, each directory is made in turn: a file
    in the place of one of these exists already. -/
def makeDirectoriesFrom (tree : FileTree) (location : Location) :
    List String → FileTree × Except FileFailure Unit
  | [] => (tree, .ok ())
  | [piece] => tree.makeEachFrom location [piece]
  | piece :: rest =>
      match tree.follow location piece with
      | .error failure => (tree, .error failure)
      | .ok next =>
          match tree.find? next with
          | some _ => tree.makeDirectoriesFrom next rest
          | none => tree.makeEachFrom location (piece :: rest)

/-- Make the directory at a path, and those above it that are missing. -/
def makeDirectories (tree : FileTree) (path : String) : FileTree × Except FileFailure Unit :=
  match admitPath path with
  | .error failure => (tree, .error failure)
  | .ok () => tree.makeDirectoriesFrom (tree.start path) (Path.pieces path)

/-- The location of a file that is to be put at a path. The last piece of the path has to be a name
    without a slash behind it, and must not lead to a directory. -/
def targetOf (tree : FileTree) (path : String) : Except FileFailure Location :=
  let pieces := (Path.pieces path).reverse
  match pieces.dropWhile (· = "") with
  | [] => .error (if path = "" then .notFound else .busy)
  | name :: earlier => do
      let above ← earlier.reverse.foldlM tree.follow (tree.start path)
      let location ← tree.follow above name
      if name = "." || name = ".." then
        throw .busy
      else if pieces.head? = some "" then
        throw .notDirectory
      else
        match tree.find? location with
        | some .directory => throw .isDirectory
        | _ => return location

/-- Move the file at a location to a path, in place of a file that is there. -/
def rename (tree : FileTree) (source : Location) (path : String) : Except FileFailure FileTree := do
  admitPath path
  let target ← tree.targetOf path
  match tree.find? source with
  | some entry => return (tree.erase source).insert target entry
  | none => throw .notFound

/-- A name that is none of the names, because it is longer than all of them. It is also longer than the
    names in a path may be, so no path leads to it. -/
def freshName (names : List String) : String :=
  String.ofList (List.replicate ((names.map String.length).foldr max Path.nameLimit + 1) 't')

/-- No name is longer than the longest. -/
theorem length_le_longest {name : String} {names : List String} (member : name ∈ names) (least : Nat) :
    name.length ≤ (names.map String.length).foldr max least := by
  induction names with
  | nil => cases member
  | cons head rest hypothesis =>
      simp only [List.map_cons, List.foldr_cons]
      rcases List.mem_cons.1 member with rfl | inRest
      · exact Nat.le_max_left _ _
      · exact Nat.le_trans (hypothesis inRest) (Nat.le_max_right _ _)

/-- A fresh name is none of the names. -/
theorem freshName_not_mem (names : List String) : freshName names ∉ names := by
  intro member
  have bound := length_le_longest member Path.nameLimit
  simp only [freshName, String.length_ofList, List.length_replicate] at bound
  omega

/-- The number of bytes of the names that the system gives to temporary files. -/
def temporaryNameSize : Nat := 10

/-- A temporary file. -/
structure TemporaryFile where
  location : Location
  path : String
deriving DecidableEq, Repr

/-- A temporary file in a directory, with a name that is not in use. Temporary files are opened by their
    path from the root, so this path must not be too long. -/
def temporaryIn (tree : FileTree) (directory : String) : Except FileFailure TemporaryFile := do
  if Path.limit < (tree.absolute directory).utf8ByteSize + 1 + temporaryNameSize then
    throw .nameTooLong
  let above ← tree.locate directory
  let name := freshName (tree.entries.flatMap (·.1))
  return { location := name :: above, path := tree.absolute directory ++ "/" ++ name }

/-- Write content to the file at a location. Only a part of the content is stored if the write fails. -/
def write (tree : FileTree) (location : Location) (content : List UInt8) :
    FileTree × Except FileFailure Unit :=
  let later := { tree with writeFaults := tree.writeFaults.tail }
  match tree.writeFaults.head?.join with
  | none => (later.insert location (.file content), .ok ())
  | some fault => (later.insert location (.file (content.take fault.stored)), .error fault.failure)

instance : FileSystem (StateM FileTree) where
  Temporary := TemporaryFile
  pathOf := TemporaryFile.path
  makeDirectories path := fun tree => (tree.makeDirectories path).swap
  createTemporary directory := fun tree =>
    match tree.temporaryIn directory with
    | .ok temporary => (.ok temporary, tree.insert temporary.location (.file []))
    | .error failure => (.error failure, tree)
  write temporary content := fun tree => (tree.write temporary.location content).swap
  persist temporary path := fun tree =>
    match tree.rename temporary.location path with
    | .ok renamed => (.ok (), renamed)
    | .error failure => (.error failure, tree)
  remove temporary := fun tree => ((), tree.erase temporary.location)

/-- Put content at a path, in place of a file that is there. A failure to make directories or a temporary
    file is reported for the directory, and a failure to write for the temporary file. -/
def replaceFile (tree : FileTree) (path : String) (content : List UInt8) : FileTree × Except Error Unit :=
  ((replaceInSteps path content : ExceptT Error (StateM FileTree) Unit).run.run tree).swap

/-- Put content at a path in place, without a temporary file, by a write that does not fail. Directories
    that are missing on the way are made first; a failure to do so is reported for the directory. -/
def putFile (tree : FileTree) (path : String) (content : List UInt8) : FileTree × Except Error Unit :=
  let directory := Path.parent path
  match tree.makeDirectories directory with
  | (tree, .error failure) => (tree, .error (.file directory failure))
  | (tree, .ok ()) =>
      match admitPath path >>= fun _ => tree.targetOf path with
      | .error failure => (tree, .error (.file path failure))
      | .ok target => (tree.insert target (.file content), .ok ())

/-! ### Views -/

/-- The names that lead from one location down to another below it. -/
def namesBelow? (above location : Location) : Option (List String) :=
  if above.isSuffixOf location && above ≠ location then
    some (location.take (location.length - above.length)).reverse
  else
    none

/-- An entry below the working directory, by its path from there. Directories end in a slash. -/
def listed? (tree : FileTree) (item : Location × Entry) : Option String := do
  let path := String.intercalate "/" (← namesBelow? tree.workingDirectory item.1)
  match item.2 with
  | .file _ => return path
  | .directory => return path ++ "/"

/-- All entries below the working directory by their paths, in the order of their bytes. -/
def listing (tree : FileTree) : List String :=
  (tree.entries.filterMap tree.listed?).mergeSort fun a b => a ≤ b

end FileTree

end KeywordHash
