/-
Module: KeywordHash.Proofs.Files.Journal
Layer: Proofs
Purpose: What a tree holds after any number of steps that put files in it, whether they succeed or fail
  (`FileTree.writes_all_or_nothing`). Each file holds the whole content of the last write to it that
  succeeded, or what it held in the beginning if there was none. Programs say what they write only by
  what they leave, so they are run on a journal: a tree with a list of the writes that were tried and a
  list of those that succeeded. A program comes to the same on a journal as on its tree (`Follows`).
Imports: KeywordHash.Proofs.Files.Replacement, KeywordHash.Proofs.Generation.Course
Trusted boundary: none
Main exports: Journal, Journal.note, Journal.lastWrite?, Journal.Tells, Journal.Tells.note, Follows,
  Follows.bind, follows_generate, FileStep, FileTree.afterStep, Journal.afterStep,
  Journal.Tells.foldl_afterStep, FileTree.journal, FileTree.writes_all_or_nothing
Open obligations: none
-/
import KeywordHash.Proofs.Files.Replacement
import KeywordHash.Proofs.Generation.Course

namespace KeywordHash

/-! ### Journals -/

/-- A tree of files, and what was to be put in it. -/
structure Journal where
  tree : FileTree
  /-- The paths at which content was to be put, the latest first. -/
  attempts : List String := []
  /-- The paths at which content was put, and the content, the latest first. -/
  writes : List (String × List UInt8) := []
deriving DecidableEq, Repr

namespace Journal

variable {journal : Journal} {before after : FileTree} {path : String} {content : List UInt8}
  {location : Location}

/-- Go on with the tree in which content was to be put at a path. It was put there unless this failed. -/
def note (journal : Journal) (path : String) (content : List UInt8)
    (outcome : FileTree × Except Error Unit) : Journal where
  tree := outcome.1
  attempts := path :: journal.attempts
  writes :=
    match outcome.2 with
    | .ok () => (path, content) :: journal.writes
    | .error _ => journal.writes

/-- The content that was put at a location last, if any was. The tree says where paths begin. -/
def lastWrite? (journal : Journal) (before : FileTree) (location : Location) : Option (List UInt8) :=
  (journal.writes.find? fun write => before.destination write.1 = location).map Prod.snd

theorem lastWrite?_note_ok :
    (journal.note path content (after, .ok ())).lastWrite? before location
      = if before.destination path = location then some content
        else journal.lastWrite? before location := by
  rw [lastWrite?, note, List.find?_cons]
  by_cases here : before.destination path = location
  · rw [decide_eq_true here, if_pos here]
    rfl
  · rw [decide_eq_false here, if_neg here]
    rfl

/-- Where something was put, something was put last. -/
theorem exists_lastWrite? (before : FileTree) {write : String × List UInt8} (h : write ∈ journal.writes) :
    ∃ last, journal.lastWrite? before (before.destination write.1) = some last := by
  rw [← Option.isSome_iff_exists, lastWrite?, Option.isSome_map, List.find?_isSome]
  exact ⟨write, h, decide_eq_true rfl⟩

/-- A journal tells what became of a tree. Nothing but the writes that succeeded has touched it, apart from
    directories on the way to a file that was to be written; what was put at a location last is there; and
    the path of each write still leads to where it led. -/
structure Tells (journal : Journal) (before : FileTree) : Prop where
  keeps : before.KeepsBut journal.tree {location | journal.lastWrite? before location ≠ none}
    {location | ∃ path ∈ journal.attempts, location ∈ before.wayTo path}
  stands : ∀ location content, journal.lastWrite? before location = some content →
    journal.tree.find? location = some (.file content)
  leads : ∀ write ∈ journal.writes, journal.tree.locate write.1 = .ok (before.destination write.1)

/-- In the beginning there is nothing to tell. -/
theorem tells_self (before : FileTree) : Tells { tree := before } before where
  keeps := .refl before
  stands := by
    intro location content last
    cases last
  leads := by
    intro write member
    cases member

namespace Tells

/-- What one more attempt may have touched is added to what was touched before. -/
theorem keeps_after {written : Set Location} (tells : journal.Tells before)
    (keeps : journal.tree.KeepsBut after written (journal.tree.wayTo path)) :
    before.KeepsBut after ({location | journal.lastWrite? before location ≠ none} ∪ written)
      {location | ∃ attempt ∈ path :: journal.attempts, location ∈ before.wayTo attempt} := by
  rw [FileTree.wayTo_congr tells.keeps.workingDirectory_eq] at keeps
  apply (tells.keeps.trans keeps).mono subset_rfl
  rintro location (⟨attempt, member, onWay⟩ | onWay)
  · exact ⟨attempt, List.mem_cons_of_mem _ member, onWay⟩
  · exact ⟨path, List.mem_cons_self, onWay⟩

/-- A write that succeeds is the last one where its path leads, and changes nothing that is told of other
    locations. -/
theorem note_ok (tells : journal.Tells before)
    (keeps : journal.tree.KeepsBut after {before.destination path} (journal.tree.wayTo path))
    (leads : after.locate path = .ok (before.destination path))
    (isThere : after.find? (before.destination path) = some (.file content)) :
    (journal.note path content (after, .ok ())).Tells before := by
  constructor
  case keeps =>
    apply (tells.keeps_after keeps).mono _ subset_rfl
    intro location touched
    change (journal.note path content (after, .ok ())).lastWrite? before location ≠ none
    rw [lastWrite?_note_ok]
    by_cases here : before.destination path = location
    · rw [if_pos here]
      exact Option.some_ne_none content
    · rw [if_neg here]
      rcases touched with earlier | now
      · exact earlier
      · exact absurd now.symm here
  case stands =>
    intro location last isLast
    rw [lastWrite?_note_ok] at isLast
    by_cases here : before.destination path = location
    · rw [if_pos here] at isLast
      cases isLast
      rw [← here]
      exact isThere
    · rw [if_neg here] at isLast
      exact keeps.find?_of_file (tells.stands location last isLast) fun now => here now.symm
  case leads =>
    intro write member
    rcases List.mem_cons.1 member with rfl | earlier
    · exact leads
    · exact keeps.locate (tells.leads write earlier)

/-- A write that fails changes nothing that is told but the directories that may have been made. -/
theorem note_error {error : Error} (tells : journal.Tells before)
    (keeps : journal.tree.KeepsBut after ∅ (journal.tree.wayTo path)) :
    (journal.note path content (after, .error error)).Tells before where
  keeps := by
    have both := tells.keeps_after keeps
    rwa [Set.union_empty] at both
  stands := by
    intro location last isLast
    exact keeps.find?_of_file (tells.stands location last isLast) (Set.notMem_empty location)
  leads := by
    intro write member
    exact keeps.locate (tells.leads write member)

/-- Whatever becomes of one more write, the journal tells it. -/
theorem note {outcome : FileTree × Except Error Unit} (tells : journal.Tells before)
    (replaced : journal.tree.Replacement path content outcome) :
    (journal.note path content outcome).Tells before := by
  cases replaced with
  | @done after keeps read =>
      rw [FileTree.read_eq_ok_iff, FileTree.destination_congr keeps.workingDirectory_eq] at read
      rw [FileTree.destination_congr tells.keeps.workingDirectory_eq] at keeps read
      exact tells.note_ok keeps read.1 read.2
  | failed keeps => exact tells.note_error keeps

/-- The files are those that were put last, and those of the beginning in whose place nothing was put. -/
theorem find?_eq_file_iff (tells : journal.Tells before) :
    journal.tree.find? location = some (.file content)
      ↔ journal.lastWrite? before location = some content
        ∨ journal.lastWrite? before location = none
          ∧ before.find? location = some (.file content) := by
  cases last : journal.lastWrite? before location with
  | some found =>
      rw [tells.stands location found last]
      simp
  | none =>
      rcases tells.keeps.find?_eq location (not_not.2 last) with same | ⟨absent, isMade, _⟩
      · rw [same]
        simp
      · rw [absent, isMade]
        simp

/-- The path of a write is read to be what was put last where it leads. -/
theorem read_eq_ok (tells : journal.Tells before) {write : String × List UInt8}
    (member : write ∈ journal.writes)
    (last : journal.lastWrite? before (before.destination write.1) = some content) :
    journal.tree.read write.1 = .ok content := by
  rw [FileTree.read_eq_ok_iff, FileTree.destination_congr tells.keeps.workingDirectory_eq]
  exact ⟨tells.leads write member, tells.stands _ _ last⟩

end Tells

end Journal

/-! ### Programs on a journal -/

/-- A program on a journal reads the tree, and notes what it puts there. -/
instance : Host (StateM Journal) where
  readFile path := fun journal => (journal.tree.read path, journal)
  replaceFile path content := fun journal =>
    let outcome := journal.tree.replaceFile path content
    (outcome.2, journal.note path content outcome)
  now := return 0

section

variable {α β : Type}

/-- What comes of a program that is run on a journal, and the journal that it leaves. -/
def Journal.perform (journal : Journal) (program : ExceptT Error (StateM Journal) α) :
    Except Error α × Journal :=
  program.run.run journal

/-- A program on journals comes to the same as a program on trees and leaves the same tree, and if a
    journal told what became of a tree, the one that is left does. -/
def Follows (onJournal : ExceptT Error (StateM Journal) α) (onTree : ExceptT Error (StateM FileTree) α) :
    Prop :=
  ∀ journal : Journal, ∃ after : Journal,
    journal.perform onJournal = ((journal.tree.perform onTree).1, after)
      ∧ after.tree = (journal.tree.perform onTree).2
      ∧ ∀ before, journal.Tells before → after.Tells before

/-- A program that leaves files alone has nothing to note. -/
theorem follows_of_eq {onJournal : ExceptT Error (StateM Journal) α}
    {onTree : ExceptT Error (StateM FileTree) α} {result : FileTree → Except Error α}
    (journal_eq : ∀ journal : Journal, journal.perform onJournal = (result journal.tree, journal))
    (tree_eq : ∀ tree, tree.perform onTree = (result tree, tree)) : Follows onJournal onTree := by
  intro journal
  rw [journal_eq, tree_eq]
  exact ⟨journal, rfl, rfl, fun _ tells => tells⟩

theorem follows_pure (a : α) : Follows (pure a) (pure a) :=
  follows_of_eq (fun _ => rfl) fun _ => rfl

theorem follows_throw (error : Error) :
    Follows (throw error : ExceptT Error (StateM Journal) α) (throw error) :=
  follows_of_eq (fun _ => rfl) fun _ => rfl

theorem follows_lift (result : Except Error α) : Follows (liftM result) (liftM result) :=
  follows_of_eq (fun _ => rfl) fun _ => rfl

/-- A program follows another if its parts follow those of the other. -/
theorem Follows.bind {onJournal : ExceptT Error (StateM Journal) α}
    {onTree : ExceptT Error (StateM FileTree) α} {nextOnJournal : α → ExceptT Error (StateM Journal) β}
    {nextOnTree : α → ExceptT Error (StateM FileTree) β} (first : Follows onJournal onTree)
    (second : ∀ a, Follows (nextOnJournal a) (nextOnTree a)) :
    Follows (onJournal >>= nextOnJournal) (onTree >>= nextOnTree) := by
  intro journal
  obtain ⟨between, run, between_tree, tells⟩ := first journal
  rcases runTree : journal.tree.perform onTree with ⟨error | a, tree⟩
  · rw [runTree] at run between_tree
    rw [FileTree.perform_bind_of_error runTree]
    exact ⟨between, run_bind_of_error run, between_tree, tells⟩
  · rw [runTree] at run between_tree
    cases between_tree
    obtain ⟨after, runNext, after_tree, tellsNext⟩ := second a between
    rw [FileTree.perform_bind_of_ok runTree]
    exact ⟨after, (run_bind_of_ok run).trans runNext, after_tree,
      fun before told => tellsNext before (tells before told)⟩

/-! ### The programs that put files in a tree -/

section

variable (path : String)

theorem follows_readText : Follows (readText path) (readText path) := by
  have follows_read : Follows (readBytes path) (readBytes path) := by
    apply Follows.bind
    · exact follows_of_eq (fun _ => rfl) fun _ => rfl
    · rintro (failure | content)
      · exact follows_throw _
      · exact follows_pure content
  apply follows_read.bind
  intro content
  cases Text.ofBytes? content with
  | none => exact follows_throw _
  | some text => exact follows_pure text

theorem follows_readDefinitions : Follows (readDefinitions path) (readDefinitions path) :=
  (follows_readText path).bind fun text => follows_lift (Definitions.parse text)

/-- Only this program puts files in a tree; the others put them there by way of it. -/
theorem follows_replaceText (text : String) : Follows (replaceText path text) (replaceText path text) := by
  intro journal
  have outcome := journal.tree.replaceFile_outcome path (Text.bytes text)
  rcases replaced : journal.tree.replaceFile path (Text.bytes text) with ⟨after, result⟩
  have run : journal.perform (replaceText path text)
      = (result, journal.note path (Text.bytes text) (after, result)) := by
    rw [Journal.perform, replaceText, ExceptT.run_mk]
    simp only [StateT.run, Host.replaceFile, replaced]
  rw [replaced] at outcome
  rw [FileTree.perform_replaceText replaced]
  exact ⟨_, run, rfl, fun before tells => tells.note outcome⟩

theorem follows_saveTable (table : Table) : Follows (saveTable path table) (saveTable path table) :=
  follows_replaceText path table.documentText

end

theorem follows_generate (input output : String) (config : Config) :
    Follows (generate input output config) (generate input output config) := by
  apply (follows_readDefinitions input).bind
  intro definitions
  apply (follows_lift _).bind
  intro table
  apply (follows_lift _).bind
  intro _
  apply (follows_lift _).bind
  intro source
  apply (follows_replaceText output source).bind
  intro _
  cases config.documentPath with
  | none => exact follows_pure table
  | some path => exact (follows_saveTable path table).bind fun _ => follows_pure table

end

/-! ### Steps in any order -/

/-- A step that puts files in a tree, or fails to. -/
inductive FileStep where
  /-- Content is put at a path in place. -/
  | put (path : String) (content : List UInt8)
  /-- A text is put at a path. -/
  | writeText (path text : String)
  /-- The document of a table is put at a path. -/
  | writeTable (path : String) (table : Table)
  /-- The program for the definitions at one path is put at another, and a document if the settings ask
      for one. -/
  | writeProgram (input output : String) (config : Config)
deriving DecidableEq, Repr

/-- The tree that a step leaves, whether it succeeds or fails. -/
def FileTree.afterStep (tree : FileTree) : FileStep → FileTree
  | .put path content => (tree.putFile path content).1
  | .writeText path text => (tree.perform (replaceText path text)).2
  | .writeTable path table => (tree.perform (saveTable path table)).2
  | .writeProgram input output config => (tree.perform (generate input output config)).2

namespace Journal

/-- The journal that a step leaves, whether it succeeds or fails. -/
def afterStep (journal : Journal) : FileStep → Journal
  | .put path content => journal.note path content (journal.tree.putFile path content)
  | .writeText path text => (journal.perform (replaceText path text)).2
  | .writeTable path table => (journal.perform (saveTable path table)).2
  | .writeProgram input output config => (journal.perform (generate input output config)).2

variable {journal : Journal} {before : FileTree}

/-- What a program that follows another leaves. -/
theorem perform_of_follows {α : Type} {onJournal : ExceptT Error (StateM Journal) α}
    {onTree : ExceptT Error (StateM FileTree) α} (follows : Follows onJournal onTree) :
    (journal.perform onJournal).2.tree = (journal.tree.perform onTree).2
      ∧ (journal.Tells before → (journal.perform onJournal).2.Tells before) := by
  obtain ⟨after, run, after_tree, tells⟩ := follows journal
  rw [run]
  exact ⟨after_tree, tells before⟩

/-- A step leaves the same tree if it is taken on a journal, and the journal tells what the step does. -/
theorem afterStep_outcome (journal : Journal) (before : FileTree) (step : FileStep) :
    (journal.afterStep step).tree = journal.tree.afterStep step
      ∧ (journal.Tells before → (journal.afterStep step).Tells before) := by
  cases step with
  | put path content =>
      have replaced := journal.tree.putFile_outcome path content
      rw [afterStep, FileTree.afterStep]
      generalize journal.tree.putFile path content = outcome at replaced ⊢
      exact ⟨rfl, fun tells => tells.note replaced⟩
  | writeText path text => exact perform_of_follows (follows_replaceText path text)
  | writeTable path table => exact perform_of_follows (follows_saveTable path table)
  | writeProgram input output config => exact perform_of_follows (follows_generate input output config)

/-- Any number of steps leave the same tree if they are taken on a journal. -/
theorem tree_foldl_afterStep (journal : Journal) (steps : List FileStep) :
    (steps.foldl afterStep journal).tree = steps.foldl FileTree.afterStep journal.tree := by
  induction steps generalizing journal with
  | nil => rfl
  | cons step rest ih =>
      rw [List.foldl_cons, List.foldl_cons, ih, (journal.afterStep_outcome journal.tree step).1]

/-- The journal tells what any number of steps do. -/
theorem Tells.foldl_afterStep (tells : journal.Tells before) (steps : List FileStep) :
    (steps.foldl afterStep journal).Tells before := by
  induction steps generalizing journal with
  | nil => exact tells
  | cons step rest ih =>
      apply ih
      exact (journal.afterStep_outcome before step).2 tells

end Journal

namespace FileTree

/-- The journal of steps that begin with a tree. -/
def journal (before : FileTree) (steps : List FileStep) : Journal :=
  steps.foldl Journal.afterStep { tree := before }

/-- The outcome of a text that is put at a path is that of the replacement by its bytes. -/
theorem replaceText_outcome (before : FileTree) (path text : String) :
    Replacement before path (Text.bytes text) (before.perform (replaceText path text)).swap := by
  have outcome := before.replaceFile_outcome path (Text.bytes text)
  rcases replaced : before.replaceFile path (Text.bytes text) with ⟨after, result⟩
  rw [replaced] at outcome
  rw [perform_replaceText replaced]
  exact outcome

/-- Content, the text of a program and the document of a table are put at a path as a whole or not at all.
    After any number of steps the journal tells what became of the tree: each file is the last that was
    put at its location, or the one of the beginning if none was, and a path at which something was put
    is read to be what was put there last. -/
theorem writes_all_or_nothing (before : FileTree) :
    (∀ path content, Replacement before path content (before.replaceFile path content))
      ∧ (∀ path text,
          Replacement before path (Text.bytes text) (before.perform (replaceText path text)).swap)
      ∧ (∀ path table, Replacement before path (Text.bytes (Table.documentText table))
          (before.perform (saveTable path table)).swap)
      ∧ ∀ steps,
          (before.journal steps).tree = steps.foldl afterStep before
            ∧ (before.journal steps).Tells before
            ∧ (∀ location content, (before.journal steps).tree.find? location = some (.file content)
                ↔ (before.journal steps).lastWrite? before location = some content
                  ∨ (before.journal steps).lastWrite? before location = none
                    ∧ before.find? location = some (.file content))
            ∧ ∀ write ∈ (before.journal steps).writes, ∃ content,
                (before.journal steps).lastWrite? before (before.destination write.1) = some content
                  ∧ (before.journal steps).tree.read write.1 = .ok content := by
  refine ⟨before.replaceFile_outcome, before.replaceText_outcome, ?_, ?_⟩
  · intro path table
    exact before.replaceText_outcome path table.documentText
  · intro steps
    have tells : (before.journal steps).Tells before :=
      (Journal.tells_self before).foldl_afterStep steps
    refine ⟨Journal.tree_foldl_afterStep { tree := before } steps, tells, ?_, ?_⟩
    · intro location content
      exact tells.find?_eq_file_iff
    · intro write member
      obtain ⟨content, last⟩ := Journal.exists_lastWrite? before member
      exact ⟨content, last, tells.read_eq_ok member last⟩

end FileTree

/-- Steps of which some succeed: the program takes the place of a text, but its document can not be put in
    place of the directory, and a file is no directory for another. -/
def mixedSteps : List FileStep :=
  [.writeText "out/words.rs" "old", .writeProgram "words" "out/words.rs" { documentPath := some "taken" },
    .put "notes" [104, 105], .writeText "notes/more" "new", .writeText "" "new"]

/-- Of the writes that were tried three succeeded, and where the text was put the program is read. -/
theorem program_stands_after_mixedSteps :
    (twoWordsTree.journal mixedSteps).attempts
        = ["", "notes/more", "notes", "taken", "out/words.rs", "out/words.rs"]
      ∧ (twoWordsTree.journal mixedSteps).writes.map Prod.fst = ["notes", "out/words.rs", "out/words.rs"]
      ∧ ("out/words.rs", Text.bytes "old") ∈ (twoWordsTree.journal mixedSteps).writes
      ∧ ∃ program, program ≠ Text.bytes "old"
          ∧ (twoWordsTree.journal mixedSteps).lastWrite? twoWordsTree ["words.rs", "out", "work"]
            = some program
          ∧ (twoWordsTree.journal mixedSteps).tree.read "out/words.rs" = .ok program := by
  have old_written : ("out/words.rs", Text.bytes "old") ∈ (twoWordsTree.journal mixedSteps).writes := by
    decide +kernel
  obtain ⟨_, _, _, run⟩ := twoWordsTree.writes_all_or_nothing
  obtain ⟨program, last, read⟩ := (run mixedSteps).2.2.2 _ old_written
  have other : (twoWordsTree.journal mixedSteps).tree.read "out/words.rs" ≠ .ok (Text.bytes "old") := by
    decide +kernel
  refine ⟨by decide +kernel, by decide +kernel, old_written, program, ?_, last, read⟩
  rintro rfl
  exact other read

end KeywordHash
