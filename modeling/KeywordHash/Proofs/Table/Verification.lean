/-
Module: KeywordHash.Proofs.Table.Verification
Layer: Proofs
Purpose: What the checks on a table are worth. They pass if no two keywords have one hash and every
  keyword is found (`verify_eq_ok_iff_checks`), and this is all that it takes for look-ups to answer like
  a scan of the keyword list, whatever the word is and whatever the other fields of the table hold
  (`verify_eq_ok_iff_lookup`). One slot can not answer for two keywords, so no collision is overlooked.
Imports: KeywordHash.Proofs.Outcome, KeywordHash.Proofs.Record, KeywordHash.Proofs.Table.Collisions,
  KeywordHash.Proofs.Table.Lookup, KeywordHash.Table.Verification
Trusted boundary: none
Main exports: Table.collisionsFrom_eq_ok, Table.unreachableAmong_eq_ok, Table.verify_eq_ok_iff_checks,
  Table.hashSum_lt_of_verify, Table.slotKeyword?_of_lookup, Table.verify_eq_ok_iff_lookup
Open obligations: none
-/
import KeywordHash.Proofs.Outcome
import KeywordHash.Proofs.Record
import KeywordHash.Proofs.Table.Collisions
import KeywordHash.Proofs.Table.Lookup
import KeywordHash.Table.Verification

namespace KeywordHash.Table

variable {table : Table}

/-! ### The two checks -/

/-- There is no collision if the hashes of the keywords are not on record and differ from each other. The
    induction is on the keywords that are left, and the record grows by the hash of each of them. -/
theorem collisionsFrom_eq_ok {keywords : List Keyword} {owners : List (Nat × String)}
    (sum_lt : ∀ keyword ∈ keywords, table.hashSum keyword.bytes < wordLimit) :
    ∃ pairs, table.collisionsFrom owners keywords = .ok pairs
      ∧ (pairs = [] ↔ Fresh (fun keyword => table.hashSum keyword.bytes) owners keywords) := by
  induction keywords generalizing owners with
  | nil => exact ⟨[], rfl, iff_of_true rfl fresh_nil⟩
  | cons keyword rest ih =>
      rw [List.forall_mem_cons] at sum_lt
      obtain ⟨later, hLater, later_iff⟩ :=
        @ih ((table.hashSum keyword.bytes, keyword.text) :: owners) sum_lt.2
      rw [collisionsFrom_cons sum_lt.1, hLater]
      refine ⟨_, rfl, ?_⟩
      rw [fresh_cons_iff (b := keyword.text), ← later_iff, List.append_eq_nil_iff,
        Option.toList_eq_nil_iff, report?, Option.map_eq_none_iff]

/-- No keyword is unreachable if each one is found. -/
theorem unreachableAmong_eq_ok {keywords : List Keyword}
    (looked : ∀ keyword ∈ keywords, ∃ found, table.lookup keyword.text = .ok found) :
    ∃ texts, table.unreachableAmong keywords = .ok texts
      ∧ (texts = [] ↔ ∀ keyword ∈ keywords, ∃ found, table.lookup keyword.text = .ok (some found)) := by
  induction keywords with
  | nil => exact ⟨[], rfl, by simp⟩
  | cons keyword rest ih =>
      rw [List.forall_mem_cons] at looked
      obtain ⟨found, hFound⟩ := looked.1
      obtain ⟨later, hLater, later_iff⟩ := ih looked.2
      rw [unreachableAmong, hFound, ok_bind, hLater, ok_bind]
      cases found with
      | some owner => exact ⟨later, rfl, by simp [hFound, later_iff]⟩
      | none => exact ⟨keyword.text :: later, rfl, by simp [hFound]⟩

section

variable (index_lt : ∀ index, some index ∈ table.slots → index < table.keywords.length)
  (sum_lt : ∀ keyword ∈ table.keywords, table.hashSum keyword.bytes < wordLimit)

include index_lt sum_lt

/-- The checks come to an end without a fault: they pass, or they tell an inconsistency. They pass if the
    hashes of the keywords differ and every keyword is found. -/
theorem verify_eq_ok_iff_checks :
    (table.verify = .ok () ∨ ∃ inconsistency, table.verify = .error (.invalidTable inconsistency))
      ∧ (table.verify = .ok () ↔
          (table.keywords.map fun keyword => table.hashSum keyword.bytes).Nodup
            ∧ ∀ keyword ∈ table.keywords, ∃ found, table.lookup keyword.text = .ok (some found)) := by
  have looked : ∀ keyword ∈ table.keywords, ∃ found, table.lookup keyword.text = .ok found :=
    fun keyword hKeyword => ⟨_, lookup_eq_ok index_lt fun _ => sum_lt keyword hKeyword⟩
  obtain ⟨pairs, hPairs, pairs_iff⟩ := @collisionsFrom_eq_ok table table.keywords [] sum_lt
  obtain ⟨texts, hTexts, texts_iff⟩ := unreachableAmong_eq_ok looked
  rw [fresh_iff_nodup] at pairs_iff
  rw [← pairs_iff, ← texts_iff, verify, collisions, hPairs, unreachable, hTexts]
  cases pairs with
  | cons pair later => exact ⟨Or.inr ⟨_, rfl⟩, iff_of_false (fun h => by cases h) (by simp)⟩
  | nil =>
      cases texts with
      | cons text later => exact ⟨Or.inr ⟨_, rfl⟩, iff_of_false (fun h => by cases h) (by simp)⟩
      | nil => exact ⟨Or.inl rfl, iff_of_true rfl ⟨rfl, rfl⟩⟩

end

/-! ### What the checks need -/

/-- The hashes of keywords whose collisions can be told are machine words. -/
theorem hashSum_lt_of_collisionsFrom {keywords : List Keyword} {owners : List (Nat × String)}
    {pairs : List (String × String)} (h : table.collisionsFrom owners keywords = .ok pairs) :
    ∀ keyword ∈ keywords, table.hashSum keyword.bytes < wordLimit := by
  induction keywords generalizing owners pairs with
  | nil => exact fun keyword hKeyword => by cases hKeyword
  | cons keyword rest ih =>
      obtain ⟨first_lt, later, hLater, _⟩ := exists_later_of_collisionsFrom h
      rw [List.forall_mem_cons]
      exact ⟨first_lt, ih hLater⟩

/-- The hashes of the keywords are machine words if the checks pass. -/
theorem hashSum_lt_of_verify (h : table.verify = .ok ()) :
    ∀ keyword ∈ table.keywords, table.hashSum keyword.bytes < wordLimit := by
  rw [verify] at h
  obtain ⟨pairs, hPairs, _⟩ := exists_ok_of_bind h
  exact hashSum_lt_of_collisionsFrom (orFault_eq_ok hPairs)

/-! ### What the checks say about look-ups -/

/-- What is found stands in the slot of the hash and has the text of the word. -/
theorem slotKeyword?_of_lookup
    (index_lt : ∀ index, some index ∈ table.slots → index < table.keywords.length)
    {word : String} {keyword : Keyword}
    (sum_lt : table.hasLength word.utf8ByteSize → table.hashSum (Text.bytes word) < wordLimit)
    (h : table.lookup word = .ok (some keyword)) :
    table.slotKeyword? (table.hashSum (Text.bytes word)) = some keyword ∧ keyword.text = word := by
  rw [lookup_eq_ok index_lt sum_lt] at h
  injection h with h
  split at h
  · obtain ⟨hSlot, hText⟩ := Option.filter_eq_some_iff.1 h
    exact ⟨hSlot, of_decide_eq_true hText⟩
  · cases h

section

variable (index_lt : ∀ index, some index ∈ table.slots → index < table.keywords.length)
  (sum_lt : ∀ keyword ∈ table.keywords, table.hashSum keyword.bytes < wordLimit)

/-- Keywords with distinct hashes have distinct texts. -/
theorem texts_nodup_of_hashes
    (distinct : (table.keywords.map fun keyword => table.hashSum keyword.bytes).Nodup) :
    (table.keywords.map (·.text)).Nodup := by
  apply List.Nodup.of_map fun text => table.hashSum (Text.bytes text)
  rwa [List.map_map]

include index_lt

/-- If the texts are distinct and every keyword is found, look-ups answer like a scan. -/
theorem lookup_eq_find?_of_found (nodup : (table.keywords.map (·.text)).Nodup)
    (reachable : ∀ keyword ∈ table.keywords, ∃ found, table.lookup keyword.text = .ok (some found))
    {word : String}
    (sum_lt : table.hasLength word.utf8ByteSize → table.hashSum (Text.bytes word) < wordLimit) :
    table.lookup word = .ok (Keyword.find? table.keywords word) := by
  obtain ⟨found, hFound⟩ : ∃ found, table.lookup word = .ok found := ⟨_, lookup_eq_ok index_lt sum_lt⟩
  rw [hFound]
  apply congrArg Except.ok
  apply Option.ext
  intro keyword
  rw [Keyword.find?_eq_some_iff nodup]
  have found_text : ∀ owner, found = some owner → owner ∈ table.keywords ∧ owner.text = word := by
    rintro owner rfl
    exact mem_of_lookup hFound
  constructor
  · exact found_text keyword
  · rintro ⟨hKeyword, rfl⟩
    obtain ⟨owner, hOwner⟩ := reachable keyword hKeyword
    rw [hFound] at hOwner
    injection hOwner with found_eq
    obtain ⟨owner_mem, owner_text⟩ := found_text owner found_eq
    rw [found_eq, List.inj_on_of_nodup_map nodup owner_mem hKeyword owner_text]

include sum_lt

/-- If every keyword is found as itself, no two of them have one hash: the slot of that hash would have
    to hold both. -/
theorem hashes_nodup_of_lookup (nodup : (table.keywords.map (·.text)).Nodup)
    (found : ∀ keyword ∈ table.keywords, table.lookup keyword.text = .ok (some keyword)) :
    (table.keywords.map fun keyword => table.hashSum keyword.bytes).Nodup := by
  have in_slot : ∀ keyword ∈ table.keywords,
      table.slotKeyword? (table.hashSum keyword.bytes) = some keyword := fun keyword hKeyword =>
    (slotKeyword?_of_lookup index_lt (fun _ => sum_lt keyword hKeyword) (found keyword hKeyword)).1
  apply List.Nodup.map_on _ (List.Nodup.of_map _ nodup)
  intro first hFirst second hSecond same
  have hSlot := in_slot first hFirst
  rw [same, in_slot second hSecond] at hSlot
  exact (Option.some.inj hSlot).symm

/-- A table whose slots can be read passes the checks if and only if its keywords have distinct texts and
    look-ups answer like a scan of the keywords, for every word whose hash, if it is taken, is a machine
    word. A table that does not pass is turned down as inconsistent. -/
theorem verify_eq_ok_iff_lookup :
    (table.verify = .ok () ↔
      (table.keywords.map (·.text)).Nodup
        ∧ ∀ word : String,
            (table.hasLength word.utf8ByteSize → table.hashSum (Text.bytes word) < wordLimit) →
            table.lookup word = .ok (Keyword.find? table.keywords word))
      ∧ (table.verify = .ok ()
          ∨ ∃ inconsistency, table.verify = .error (.invalidTable inconsistency)) := by
  obtain ⟨outcome, checks_iff⟩ := verify_eq_ok_iff_checks index_lt sum_lt
  refine ⟨?_, outcome⟩
  rw [checks_iff]
  constructor
  · rintro ⟨distinct, reachable⟩
    have nodup := texts_nodup_of_hashes distinct
    exact ⟨nodup, fun word => lookup_eq_find?_of_found index_lt nodup reachable⟩
  · rintro ⟨nodup, answers⟩
    have found : ∀ keyword ∈ table.keywords, table.lookup keyword.text = .ok (some keyword) := by
      intro keyword hKeyword
      rw [answers keyword.text fun _ => sum_lt keyword hKeyword,
        (Keyword.find?_eq_some_iff nodup).2 ⟨hKeyword, rfl⟩]
    exact ⟨hashes_nodup_of_lookup index_lt sum_lt nodup found,
      fun keyword hKeyword => ⟨keyword, found keyword hKeyword⟩⟩

end

/-- The table of three words passes the checks, so its look-ups answer like a scan of the words. -/
theorem verify_reserved :
    (∀ index, some index ∈ reservedTable.slots → index < reservedTable.keywords.length)
      ∧ (∀ keyword ∈ reservedTable.keywords, reservedTable.hashSum keyword.bytes < wordLimit)
      ∧ reservedTable.verify = .ok ()
      ∧ ∀ word : String,
          (reservedTable.hasLength word.utf8ByteSize
            → reservedTable.hashSum (Text.bytes word) < wordLimit) →
          reservedTable.lookup word = .ok (Keyword.find? reservedTable.keywords word) := by
  have index_lt := (perfect_of_build build_reserved).2.consistent.index_lt
  have sum_lt : ∀ keyword ∈ reservedTable.keywords,
      reservedTable.hashSum keyword.bytes < wordLimit := by
    decide +kernel
  have passes : reservedTable.verify = .ok () := by decide +kernel
  exact ⟨index_lt, sum_lt, passes, ((verify_eq_ok_iff_lookup index_lt sum_lt).1.1 passes).2⟩

/-- With two slots exchanged, the hashes still differ, but the words in these slots are not found. -/
example : ({ reservedTable with slots := #[none, none, some 2, some 1, some 0] } : Table).verify
    = .error (.invalidTable (.unreachable "in")) := by
  decide +kernel

end KeywordHash.Table
