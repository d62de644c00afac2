/-
Module: KeywordHash.Host
Layer: Files
Purpose: What a program asks of the place where it runs: the content of a file, the replacement of a file
  as a whole, and the time. A tree of files is such a place, in which no time passes.
Imports: KeywordHash.Files.Tree, KeywordHash.Text.Bytes
Trusted boundary: none
Main exports: Host, readBytes, readText, replaceText
Open obligations: none
-/
import KeywordHash.Files.Tree
import KeywordHash.Text.Bytes

namespace KeywordHash

/-- A place where programs run. -/
class Host (m : Type → Type) where
  /-- The content of the file at a path. -/
  readFile : String → m (Except FileFailure (List UInt8))
  /-- Put content at a path, whole or not at all. -/
  replaceFile : String → List UInt8 → m (Except Error Unit)
  /-- The time in nanoseconds. -/
  now : m Nat

instance : Host (StateM FileTree) where
  readFile path := fun tree => (tree.read path, tree)
  replaceFile path content := (replaceInSteps path content).run
  now := return 0

variable {m : Type → Type} [Monad m] [Host m]

/-- The bytes of the file at a path. -/
def readBytes (path : String) : ExceptT Error m (List UInt8) := do
  match ← (Host.readFile path : m (Except FileFailure (List UInt8))) with
  | .ok content => return content
  | .error failure => throw (.file path failure)

/-- The text of the file at a path. -/
def readText (path : String) : ExceptT Error m String := do
  match Text.ofBytes? (← readBytes path) with
  | some text => return text
  | none => throw (.file path .notUtf8)

/-- Put a text at a path, whole or not at all. -/
def replaceText (path text : String) : ExceptT Error m Unit :=
  ExceptT.mk (Host.replaceFile path (Text.bytes text))

end KeywordHash
