/-
Module: KeywordHash.Proofs.Files.Tree
Layer: Proofs
Purpose: What is at a location after a change, and where paths lead. A path that can be followed leads to
  the location that its pieces spell (`destination`), so it leads to the same one in every tree that has
  the directories on the way. What a change may have touched is told by two sets of locations: those
  that were written, and those at which a directory may have been made (`KeepsBut`).
Imports: KeywordHash.Files.Tree, KeywordHash.Proofs.Outcome, Mathlib.Data.Set.Insert
Trusted boundary: none
Main exports: FileTree.find?_insert_of_ne, FileTree.destination, FileTree.wayTo, FileTree.locate_eq_ok,
  FileTree.read_eq_ok, FileTree.KeepsBut, FileTree.KeepsBut.trans, FileTree.KeepsBut.locate,
  FileTree.KeepsBut.find?_of_file, FileTree.KeepsBut.read
Open obligations: none
-/
import KeywordHash.Files.Tree
import KeywordHash.Proofs.Outcome
import Mathlib.Data.Set.Insert

namespace KeywordHash

/-- Where one piece of a path leads from a location, if it leads anywhere. -/
def Location.next (location : Location) (piece : String) : Location :=
  if Path.isIdle piece then location else if piece = ".." then location.tail else piece :: location

namespace FileTree

variable {tree before between after : FileTree} {location other : Location}

/-! ### What is at a location -/

/-- Entries for one location do not count at another. -/
theorem lookup_filter_of_ne {entries : List (Location × Entry)} (h : other ≠ location) :
    (entries.filter (·.1 ≠ location)).lookup other = entries.lookup other := by
  induction entries with
  | nil => rfl
  | cons item rest ih =>
      by_cases at_location : item.1 = location
      · have ne : (other == item.1) = false := beq_eq_false_iff_ne.2 (at_location ▸ h)
        rw [List.filter_cons_of_neg (by simpa using at_location), ih, List.lookup_cons, ne]
      · rw [List.filter_cons_of_pos (by simpa using at_location), List.lookup_cons, List.lookup_cons, ih]

theorem find?_of_ne_nil (h : location ≠ []) : tree.find? location = tree.entries.lookup location := by
  rw [find?, if_neg h]

/-- Nothing but what is at the location changes if it is erased. -/
theorem find?_erase_of_ne (h : other ≠ location) :
    (tree.erase location).find? other = tree.find? other := by
  by_cases root : other = []
  · rw [root]
    rfl
  · rw [find?_of_ne_nil root, find?_of_ne_nil root]
    exact lookup_filter_of_ne h

/-- Nothing is left at a location that was erased. -/
theorem find?_erase_self (h : location ≠ []) : (tree.erase location).find? location = none := by
  rw [find?_of_ne_nil h, List.lookup_eq_none_iff]
  intro item member
  have ne := (List.mem_filter.1 member).2
  simpa using Ne.symm (of_decide_eq_true ne)

/-- Nothing but what is at the location changes if an entry takes its place. -/
theorem find?_insert_of_ne {entry : Entry} (h : other ≠ location) :
    (tree.insert location entry).find? other = tree.find? other := by
  by_cases root : other = []
  · rw [root]
    rfl
  · have ne : (other == location) = false := beq_eq_false_iff_ne.2 h
    rw [find?_of_ne_nil root, insert, List.lookup_cons, ne, ← find?_of_ne_nil root]
    exact find?_erase_of_ne h

theorem find?_insert_self {entry : Entry} (h : location ≠ []) :
    (tree.insert location entry).find? location = some entry := by
  rw [find?_of_ne_nil h, insert, List.lookup_cons, beq_self_eq_true]

/-- A file, or a location with nothing at it, is not the root. -/
theorem ne_nil_of_find? (h : tree.find? location ≠ some .directory) : location ≠ [] := by
  rintro rfl
  exact h rfl

/-! ### Where paths lead -/

/-- The location that the pieces of a path spell. -/
def destination (tree : FileTree) (path : String) : Location :=
  (Path.pieces path).foldl Location.next (tree.start path)

/-- The locations that the path to a file leads through before its last part. -/
def wayTo (tree : FileTree) (path : String) : Set Location :=
  {location | ∃ leading, leading <+: Path.pieces (Path.parent path)
    ∧ location = leading.foldl Location.next (tree.start (Path.parent path))}

theorem start_congr (h : after.workingDirectory = before.workingDirectory) (path : String) :
    after.start path = before.start path := by
  rw [start, start, h]

theorem destination_congr (h : after.workingDirectory = before.workingDirectory) (path : String) :
    after.destination path = before.destination path := by
  rw [destination, destination, start_congr h]

theorem wayTo_congr (h : after.workingDirectory = before.workingDirectory) (path : String) :
    after.wayTo path = before.wayTo path := by
  rw [wayTo, wayTo, start_congr h]

/-- A piece that can be followed is followed from a directory, to where it leads. -/
theorem follow_eq_ok {piece : String} {next : Location} (h : tree.follow location piece = .ok next) :
    tree.find? location = some .directory ∧ next = location.next piece := by
  rw [follow] at h
  cases hEntry : tree.find? location with
  | none =>
      rw [hEntry] at h
      cases h
  | some entry =>
      cases entry with
      | file content =>
          rw [hEntry] at h
          cases h
      | directory =>
          refine ⟨rfl, ?_⟩
          simp only [hEntry] at h
          rw [Location.next]
          split_ifs at h ⊢ <;> cases h <;> rfl

/-- Whether a piece can be followed from a directory does not depend on the tree. -/
theorem follow_congr (here : before.find? location = some .directory)
    (there : after.find? location = some .directory) (piece : String) :
    after.follow location piece = before.follow location piece := by
  rw [follow, follow, here, there]

/-- Pieces that can be followed lead to the location that they spell. -/
theorem eq_foldl_next_of_follow {pieces : List String} {final : Location}
    (h : pieces.foldlM tree.follow location = .ok final) :
    final = pieces.foldl Location.next location := by
  induction pieces generalizing location with
  | nil =>
      cases h
      rfl
  | cons piece rest ih =>
      rw [List.foldlM_cons] at h
      obtain ⟨next, hNext, hRest⟩ := exists_ok_of_bind h
      rw [ih hRest, (follow_eq_ok hNext).2]
      rfl

/-- Pieces that can be followed can be followed in every tree that has the same directories. -/
theorem foldlM_follow_of_directories
    (kept : ∀ location, before.find? location = some .directory → after.find? location = some .directory)
    {pieces : List String} {final : Location} (h : pieces.foldlM before.follow location = .ok final) :
    pieces.foldlM after.follow location = .ok final := by
  induction pieces generalizing location with
  | nil => exact h
  | cons piece rest ih =>
      rw [List.foldlM_cons] at h ⊢
      obtain ⟨next, hNext, hRest⟩ := exists_ok_of_bind h
      have directory := (follow_eq_ok hNext).1
      rw [follow_congr directory (kept location directory), hNext, ok_bind]
      exact ih hRest

/-- A path leads somewhere if it is a path at all and its pieces can be followed. -/
theorem locate_eq_ok_iff {path : String} : tree.locate path = .ok location ↔
    admitPath path = .ok () ∧ path ≠ ""
      ∧ (Path.pieces path).foldlM tree.follow (tree.start path) = .ok location := by
  constructor
  · intro h
    rw [locate] at h
    obtain ⟨_, admitted, hFollow⟩ := exists_ok_of_bind h
    by_cases empty : path = ""
    · rw [if_pos empty] at hFollow
      cases hFollow
    · rw [if_neg empty] at hFollow
      exact ⟨admitted, empty, hFollow⟩
  · rintro ⟨admitted, nonempty, hFollow⟩
    rw [locate, admitted, ok_bind, if_neg nonempty, hFollow]

/-- Reading a path gives the content of the file to which it leads. -/
theorem read_eq_ok_iff {path : String} {content : List UInt8} : tree.read path = .ok content ↔
    tree.locate path = .ok (tree.destination path)
      ∧ tree.find? (tree.destination path) = some (.file content) := by
  constructor
  · intro h
    rw [read] at h
    obtain ⟨location, hLocate, hEntry⟩ := exists_ok_of_bind h
    have leads : location = tree.destination path :=
      eq_foldl_next_of_follow (locate_eq_ok_iff.1 hLocate).2.2
    rw [← leads]
    refine ⟨hLocate, ?_⟩
    cases hFound : tree.find? location with
    | none =>
        simp only [hFound] at hEntry
        cases hEntry
    | some entry =>
        cases entry with
        | directory =>
            simp only [hFound] at hEntry
            cases hEntry
        | file found =>
            simp only [hFound] at hEntry
            cases hEntry
            rfl
  · rintro ⟨hLocate, hEntry⟩
    rw [read, hLocate, ok_bind]
    simp only [hEntry]
    rfl

/-! ### What a change keeps -/

/-- A change keeps everything but what is at the locations that were written, and but for directories
    that were made where nothing had been. It never takes a directory away. -/
structure KeepsBut (before after : FileTree) (written made : Set Location) : Prop where
  workingDirectory_eq : after.workingDirectory = before.workingDirectory
  find?_eq : ∀ location ∉ written, after.find? location = before.find? location
    ∨ before.find? location = none ∧ after.find? location = some .directory ∧ location ∈ made
  directory : ∀ location, before.find? location = some .directory → after.find? location = some .directory

namespace KeepsBut

variable {written made writtenNext madeNext : Set Location}

/-- A tree with the same at each location keeps everything. -/
theorem of_find?_eq (workingDirectory_eq : after.workingDirectory = before.workingDirectory)
    (h : ∀ location, after.find? location = before.find? location) :
    before.KeepsBut after written made where
  workingDirectory_eq := workingDirectory_eq
  find?_eq location _ := Or.inl (h location)
  directory location directory := (h location).trans directory

theorem refl (tree : FileTree) : tree.KeepsBut tree written made :=
  of_find?_eq rfl fun _ => rfl

/-- More may have been touched than was. -/
theorem mono {writtenMore madeMore : Set Location} (keeps : before.KeepsBut after written made)
    (written_subset : written ⊆ writtenMore) (made_subset : made ⊆ madeMore) :
    before.KeepsBut after writtenMore madeMore where
  workingDirectory_eq := keeps.workingDirectory_eq
  find?_eq := by
    intro location unwritten
    rcases keeps.find?_eq location (fun member => unwritten (written_subset member)) with
      same | ⟨absent, isMade, onWay⟩
    · exact Or.inl same
    · exact Or.inr ⟨absent, isMade, made_subset onWay⟩
  directory := keeps.directory

/-- What two changes in turn may have touched is what either of them may have. -/
theorem trans (first : before.KeepsBut between written made)
    (second : between.KeepsBut after writtenNext madeNext) :
    before.KeepsBut after (written ∪ writtenNext) (made ∪ madeNext) where
  workingDirectory_eq := second.workingDirectory_eq.trans first.workingDirectory_eq
  find?_eq := by
    intro location unwritten
    rw [Set.mem_union, not_or] at unwritten
    rcases first.find?_eq location unwritten.1 with same | ⟨absent, isMade, onWay⟩
    · rcases second.find?_eq location unwritten.2 with sameNext | ⟨absent, isMade, onWay⟩
      · exact Or.inl (sameNext.trans same)
      · exact Or.inr ⟨same.symm.trans absent, isMade, Or.inr onWay⟩
    · exact Or.inr ⟨absent, second.directory location isMade, Or.inl onWay⟩
  directory location isDirectory := second.directory location (first.directory location isDirectory)

/-- A file stands where the same file stood before, or where something was written. -/
theorem file_of_file (keeps : before.KeepsBut after written made) {content : List UInt8}
    (h : after.find? location = some (.file content)) :
    before.find? location = some (.file content) ∨ location ∈ written := by
  by_cases unwritten : location ∈ written
  · exact Or.inr unwritten
  · rcases keeps.find?_eq location unwritten with same | ⟨_, isMade, _⟩
    · exact Or.inl (same.symm.trans h)
    · rw [isMade] at h
      cases h

/-- A path that leads somewhere still leads there: the directories on the way are where they were. -/
theorem locate (keeps : before.KeepsBut after written made) {path : String}
    (h : before.locate path = .ok location) : after.locate path = .ok location := by
  obtain ⟨admitted, nonempty, hFollow⟩ := locate_eq_ok_iff.1 h
  rw [locate_eq_ok_iff, start_congr keeps.workingDirectory_eq]
  exact ⟨admitted, nonempty, foldlM_follow_of_directories keeps.directory hFollow⟩

/-- A file stays where it was if nothing was written there: no directory is made in its place. -/
theorem find?_of_file (keeps : before.KeepsBut after written made) {content : List UInt8}
    (h : before.find? location = some (.file content)) (unwritten : location ∉ written) :
    after.find? location = some (.file content) := by
  rcases keeps.find?_eq location unwritten with same | ⟨absent, _, _⟩
  · exact same.trans h
  · rw [h] at absent
    cases absent

/-- A file that was not written is read as before. -/
theorem read (keeps : before.KeepsBut after written made) {path : String} {content : List UInt8}
    (h : before.read path = .ok content) (unwritten : before.destination path ∉ written) :
    after.read path = .ok content := by
  obtain ⟨hLocate, hEntry⟩ := read_eq_ok_iff.1 h
  rw [read_eq_ok_iff, destination_congr keeps.workingDirectory_eq]
  exact ⟨keeps.locate hLocate, keeps.find?_of_file hEntry unwritten⟩

end KeepsBut

end FileTree

end KeywordHash
