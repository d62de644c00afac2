/-
Module: KeywordHash.Proofs.Generation
Layer: Proofs
Purpose: How generation from a text of definitions ends before anything is written (`Generation`). What
  reading establishes makes the later errors impossible: keywords that were read are never turned down
  one by one, no attempt of the search faults, and a table that was built passes the checks. What is
  left is a key that is defined again, a text without keywords, and a search without result.
Imports: KeywordHash.Proofs.Keyword.Definitions, KeywordHash.Proofs.Table.FirstSuccess,
  KeywordHash.Proofs.Table.Representation, KeywordHash.Proofs.Table.Verification
Trusted boundary: none
Main exports: Table.build_outcome, Table.verify_of_build, Generation, generation_ends
Open obligations: none
-/
import KeywordHash.Proofs.Keyword.Definitions
import KeywordHash.Proofs.Table.FirstSuccess
import KeywordHash.Proofs.Table.Representation
import KeywordHash.Proofs.Table.Verification

namespace KeywordHash

namespace Table

/-- Building a table for valid keywords ends with a table, or the search gives up. The bounds on the
    keywords and the tries are those within which no attempt faults. -/
theorem build_outcome {keywords : List Keyword} {maxTries : Nat} (valid : Keyword.Valid keywords)
    (total_lt : Keyword.totalLength keywords < 2 ^ 32) (tries_le : maxTries ≤ 2 ^ 31 - 1) :
    (∃ table, build keywords maxTries = .ok table)
      ∨ ∃ tried, build keywords maxTries = .error (.gaveUp tried) := by
  obtain ⟨search, hStart⟩ := @Search.exists_start keywords maxTries valid
  obtain ⟨_, bounds, _, _, search_eq⟩ := Search.start_eq_ok hStart
  have attempts : ∀ signature, ∃ assignment,
      assign search.keywords signature search.maxTries = .ok assignment := by
    rw [search_eq]
    exact valid.exists_assign total_lt tries_le
  rw [build, hStart, ok_bind]
  rcases Search.run_outcome attempts with ⟨found, hRun⟩ | ⟨tried, hRun⟩
  · exact Or.inl ⟨_, by rw [hRun, ok_bind]; rfl⟩
  · exact Or.inr ⟨tried, by rw [hRun]; rfl⟩

/-- A table that was built passes the checks: its hashes differ, and each keyword is in the slot of its
    hash. -/
theorem verify_of_build {keywords : List Keyword} {maxTries : Nat} {table : Table}
    (built : build keywords maxTries = .ok table)
    (length_lt : ∀ keyword ∈ keywords, keyword.length < 2 ^ 32) : table.verify = .ok () := by
  obtain ⟨valid, found, rfl, hAssign, _⟩ := build_eq_ok built
  have assigned := assigned_of_assign hAssign
  have perfect := perfect_ofFound assigned valid.nodup
  have sum_lt : ∀ keyword ∈ keywords, (ofFound keywords found).hashSum keyword.bytes < wordLimit :=
    fun keyword hKeyword => hashSum_ofFound_lt assigned hKeyword (length_lt keyword hKeyword)
  have reachable : ∀ keyword ∈ keywords, ∃ owner,
      (ofFound keywords found).lookup keyword.text = .ok (some owner) := by
    intro keyword hKeyword
    refine ⟨keyword, ?_⟩
    rw [perfect.lookup_eq (sum_lt keyword hKeyword),
      (Keyword.find?_eq_some_iff perfect.nodup).2 ⟨hKeyword, rfl⟩]
  have checks_iff := (verify_eq_ok_iff_checks perfect.consistent.index_lt sum_lt).2
  exact checks_iff.2 ⟨nodup_hashes_ofFound perfect, reachable⟩

end Table

/-- The ways in which reading definitions from a text, building a table for the keywords that were read,
    and checking this table end, with at most `maxTries` tries for each signature. -/
inductive Generation (text : String) (maxTries : Nat) : Prop where
  /-- The text defines a key again. -/
  | redefined {keyword : String} {line firstLine : Nat}
      (read : Definitions.parse text = .error (.duplicateKeyword keyword line firstLine))
  /-- There is no keyword in the text. -/
  | empty {definitions : Definitions} (read : Definitions.parse text = .ok definitions)
      (noKeywords : definitions.keywords = [])
      (build : Table.build definitions.keywords maxTries = .error .emptyKeywordSet)
  | gaveUp {definitions : Definitions} {tried : Nat}
      (read : Definitions.parse text = .ok definitions)
      (build : Table.build definitions.keywords maxTries = .error (.gaveUp tried))
  | verified {definitions : Definitions} {table : Table}
      (read : Definitions.parse text = .ok definitions)
      (build : Table.build definitions.keywords maxTries = .ok table)
      (verify : table.verify = .ok ())

/-- Generation from a text ends with a verified table or in one of three errors, and never with a keyword
    that is turned down, an inconsistent table or a fault. -/
theorem generation_ends {text : String} {maxTries : Nat} (size_lt : text.utf8ByteSize < 2 ^ 32)
    (tries_le : maxTries ≤ 2 ^ 31 - 1) : Generation text maxTries := by
  rcases Definitions.parse_outcome text with
    ⟨definitions, read, usable, total_le⟩ | ⟨error, read, redefined⟩
  · have total_lt := Nat.lt_of_le_of_lt total_le size_lt
    by_cases noKeywords : definitions.keywords = []
    · refine .empty read noKeywords ?_
      rw [noKeywords]
      rfl
    · have outcome := Table.build_outcome (usable.valid noKeywords) total_lt tries_le
      rcases outcome with ⟨table, build⟩ | ⟨tried, build⟩
      · refine .verified read build (Table.verify_of_build build ?_)
        intro keyword hKeyword
        exact Nat.lt_of_le_of_lt (Keyword.length_le_totalLength hKeyword) total_lt
      · exact .gaveUp read build
  · obtain ⟨keyword, line, firstLine, rfl⟩ := redefined
    exact .redefined read

/-- Generation from a text with a comment and two keywords ends in one of these ways. -/
theorem generation_ends_two :
    "# words\nif If\nint Int\n".utf8ByteSize < 2 ^ 32 ∧ 100 ≤ 2 ^ 31 - 1
      ∧ Generation "# words\nif If\nint Int\n" 100 := by
  have size_lt : "# words\nif If\nint Int\n".utf8ByteSize < 2 ^ 32 := by decide
  have tries_le : 100 ≤ 2 ^ 31 - 1 := by decide
  exact ⟨size_lt, tries_le, generation_ends size_lt tries_le⟩

/-- Of these ways it is the last one: the table passes the checks. -/
example : (do
      let definitions ← Definitions.parse "# words\nif If\nint Int\n"
      let table ← Table.build definitions.keywords 100
      table.verify) = Except.ok () := by
  decide +kernel

end KeywordHash
