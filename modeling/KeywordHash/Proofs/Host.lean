/-
Module: KeywordHash.Proofs.Host
Layer: Proofs
Purpose: Programs that are run on a tree of files. One that is in two parts goes on from the tree that its
  first part leaves, or ends where this part fails; reading leaves the tree as it is.
Imports: KeywordHash.Generate, KeywordHash.Proofs.Outcome, KeywordHash.Proofs.Text.Bytes
Trusted boundary: none
Main exports: FileTree.perform, FileTree.perform_bind_of_ok, FileTree.perform_bind_of_error,
  FileTree.perform_lift, FileTree.perform_replaceText, FileTree.perform_loadTable,
  FileTree.perform_readText, FileTree.perform_readDefinitions
Open obligations: none
-/
import KeywordHash.Generate
import KeywordHash.Proofs.Outcome
import KeywordHash.Proofs.Text.Bytes

namespace KeywordHash.FileTree

variable {α β : Type} {tree after : FileTree} {path : String}

/-- What comes of a program that is run on a tree, and the tree that it leaves. -/
def perform (tree : FileTree) (program : ExceptT Error (StateM FileTree) α) :
    Except Error α × FileTree :=
  program.run.run tree

/-! ### Programs in parts -/

section

variable {first : ExceptT Error (StateM FileTree) α} {second : α → ExceptT Error (StateM FileTree) β}

/-- The second part goes on from the tree that the first part leaves. -/
theorem perform_bind_of_ok {a : α} (h : tree.perform first = (.ok a, after)) :
    tree.perform (first >>= second) = after.perform (second a) :=
  run_bind_of_ok h

/-- If the first part fails, the tree is left as it is then. -/
theorem perform_bind_of_error {error : Error} (h : tree.perform first = (.error error, after)) :
    tree.perform (first >>= second) = (.error error, after) :=
  run_bind_of_error h

end

/-- A step that does not look at files leaves them as they are. -/
theorem perform_lift {result outcome : Except Error α} (h : result = outcome) :
    tree.perform (liftM result : ExceptT Error (StateM FileTree) α) = (outcome, tree) := by
  rw [h]
  rfl

/-- A text is put at a path as its bytes are. -/
theorem perform_replaceText {text : String} {outcome : Except Error Unit}
    (h : tree.replaceFile path (Text.bytes text) = (after, outcome)) :
    tree.perform (replaceText path text) = (outcome, after) := by
  have swapped := congrArg Prod.swap h
  rwa [replaceFile, Prod.swap_swap] at swapped

/-! ### Reading -/

/-- The bytes at a path are read without a change. -/
theorem perform_readBytes_of_ok {content : List UInt8} (h : tree.read path = .ok content) :
    tree.perform (readBytes path) = (.ok content, tree) := by
  have read : tree.perform (liftM (Host.readFile path : StateM FileTree (Except FileFailure (List UInt8))))
      = (.ok (.ok content), tree) := by
    rw [← h]
    rfl
  rw [readBytes, perform_bind_of_ok read]
  rfl

/-- If they can not be read, the path is told. -/
theorem perform_readBytes_of_error {failure : FileFailure} (h : tree.read path = .error failure) :
    tree.perform (readBytes path) = (.error (.file path failure), tree) := by
  have read : tree.perform (liftM (Host.readFile path : StateM FileTree (Except FileFailure (List UInt8))))
      = (.ok (.error failure), tree) := by
    rw [← h]
    rfl
  rw [readBytes, perform_bind_of_ok read]
  rfl

/-- The document of a table is loaded from the bytes at its path. -/
theorem perform_loadTable {content : List UInt8} (h : tree.read path = .ok content) :
    tree.perform (loadTable path) = (Table.load content, tree) := by
  rw [loadTable, perform_bind_of_ok (perform_readBytes_of_ok h), perform_lift rfl]

/-- A text is read without a change, and its bytes are at the path. -/
theorem perform_readText (tree : FileTree) (path : String) :
    ∃ result, tree.perform (readText path) = (result, tree)
      ∧ ∀ text, result = .ok text → tree.read path = .ok (Text.bytes text) := by
  rw [readText]
  cases hRead : tree.read path with
  | error failure =>
      refine ⟨_, perform_bind_of_error (perform_readBytes_of_error hRead), ?_⟩
      intro text same
      cases same
  | ok content =>
      rw [perform_bind_of_ok (perform_readBytes_of_ok hRead)]
      cases hText : Text.ofBytes? content with
      | none =>
          refine ⟨.error (.file path .notUtf8), rfl, ?_⟩
          intro text same
          cases same
      | some text =>
          refine ⟨.ok text, rfl, ?_⟩
          intro other same
          cases same
          rw [Text.bytes_of_ofBytes? hText]

/-- Definitions are read without a change, from the text whose bytes are at the path. -/
theorem perform_readDefinitions (tree : FileTree) (path : String) :
    ∃ result, tree.perform (readDefinitions path) = (result, tree)
      ∧ ∀ definitions, result = .ok definitions →
        ∃ text, tree.read path = .ok (Text.bytes text) ∧ Definitions.parse text = .ok definitions := by
  rw [readDefinitions]
  obtain ⟨result, hText, bytes_eq⟩ := tree.perform_readText path
  cases result with
  | error error =>
      refine ⟨_, perform_bind_of_error hText, ?_⟩
      intro definitions same
      cases same
  | ok text =>
      rw [perform_bind_of_ok hText]
      exact ⟨_, perform_lift rfl, fun definitions hParse => ⟨text, bytes_eq text rfl, hParse⟩⟩

end KeywordHash.FileTree
