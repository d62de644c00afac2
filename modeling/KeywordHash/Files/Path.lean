/-
Module: KeywordHash.Files.Path
Layer: Files
Purpose: Paths as text. The slashes of a path cut it into pieces; an empty piece and a single dot stay in
  the same directory, and two dots lead to the one above. Pieces at the end of a path that lead nowhere
  do not count when its last part is asked for. Names and whole paths have a greatest length.
Imports: none
Trusted boundary: none
Main exports: Path.pieces, Path.isAbsolute, Path.isLongName, Path.isLong, Path.hasNull, Path.parent,
  Path.fileName?, Path.extension?
Open obligations: none
-/

namespace KeywordHash.Path

/-- The pieces of a path. There is at least one. -/
def pieces (path : String) : List String :=
  (go path.toList).map String.ofList
where
  go : List Char → List (List Char)
    | [] => [[]]
    | '/' :: rest => [] :: go rest
    | c :: rest =>
        match go rest with
        | [] => [[c]]
        | piece :: others => (c :: piece) :: others

/-- Does the path begin at the root, whatever the working directory is? -/
def isAbsolute (path : String) : Bool :=
  path.toList.head? = some '/'

/-- Does the piece stay in the same directory? -/
def isIdle (piece : String) : Bool :=
  piece = "" || piece = "."

/-- The greatest number of bytes of a name. -/
def nameLimit : Nat := 255

/-- Is the name longer than names may be? -/
def isLongName (name : String) : Bool :=
  nameLimit < name.utf8ByteSize

/-- The greatest number of bytes of a path. -/
def limit : Nat := 4095

/-- Is the path longer than paths may be? All of its bytes count, also those of idle pieces. -/
def isLong (path : String) : Bool :=
  limit < path.utf8ByteSize

/-- Does the path hold the null character? No file has such a path. -/
def hasNull (path : String) : Bool :=
  path.toList.any (·.toNat = 0)

/-- The pieces, last first, without the idle ones at the end. A dot at the start of a path counts. -/
def significant : List String → List String
  | [] => []
  | [piece] => if piece = "" then [] else [piece]
  | piece :: earlier => if isIdle piece then significant earlier else piece :: earlier

/-- The directory that a path leads through to its last part. A path of one part is in the directory where
    it begins, and a path of none counts as one in the working directory. -/
def parent (path : String) : String :=
  match significant (pieces path).reverse with
  | [] => "."
  | _ :: earlier =>
      match significant earlier with
      | [] => if isAbsolute path then "/" else "."
      | directory => String.intercalate "/" directory.reverse

/-- The name that a path leads to, if its last part is one. -/
def fileName? (path : String) : Option String :=
  match significant (pieces path).reverse with
  | [] => none
  | piece :: _ => if piece = "." || piece = ".." then none else some piece

/-- What follows the last dot of the name, unless the name begins with that dot. -/
def extension? (path : String) : Option String := do
  let name ← fileName? path
  let reversed := name.toList.reverse
  match reversed.dropWhile (· ≠ '.') with
  | _ :: _ :: _ => return String.ofList (reversed.takeWhile (· ≠ '.')).reverse
  | _ => none

end KeywordHash.Path
