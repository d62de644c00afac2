/-
Module: KeywordHash.Proofs.Table.Perfect
Layer: Proofs
Purpose: What holds of every table that is built for a keyword list (`Table.Perfect`): the slot of a
  hash names the one keyword with that hash, and every value is unused or a possible hash. The table
  gets this from the attempt that succeeded, where the hashes were still those of the search.
Imports: KeywordHash.Proofs.Assignment, KeywordHash.Proofs.Search, KeywordHash.Proofs.Table.Hash,
  KeywordHash.Table.Build
Trusted boundary: none
Main exports: Table.Perfect, Table.build_eq_ok, Table.perfect_of_build
Open obligations: none
-/
import KeywordHash.Proofs.Assignment
import KeywordHash.Proofs.Search
import KeywordHash.Proofs.Table.Hash
import KeywordHash.Table.Build

namespace KeywordHash.Table

/-- The table gives every keyword a slot of its own, at its hash. -/
structure Perfect (table : Table) : Prop where
  nodup : (table.keywords.map (·.text)).Nodup
  hasLength : ∀ keyword ∈ table.keywords, table.hasLength keyword.length
  slot_iff : ∀ hash index, table.slots[hash]? = some (some index) ↔
    ∃ keyword, table.keywords[index]? = some keyword ∧ table.hashSum keyword.bytes = hash
  value_range : ∀ c, table.values.get c = unused ∨
    0 ≤ table.values.get c ∧ table.values.get c ≤ table.maxHash

theorem hasLength_iff {table : Table} {length : Nat} :
    table.hasLength length ↔ table.minWordLength ≤ length ∧ length ≤ table.maxWordLength := by
  rw [hasLength, Bool.and_eq_true, decide_eq_true_iff, decide_eq_true_iff]

/-- A table is built for a valid keyword list, from a successful attempt at a candidate within the
    bounds of its lengths. -/
theorem build_eq_ok {keywords : List Keyword} {maxTries : Nat} {table : Table}
    (built : build keywords maxTries = .ok table) :
    Keyword.Valid keywords ∧ ∃ found : Found, table = ofFound keywords found
      ∧ assign keywords found.signature maxTries
        = .ok (.success found.values found.table found.adjustments)
      ∧ ∃ bounds : Bounds, bounds.shortest = Keyword.shortest keywords
        ∧ bounds.longest = Keyword.longest keywords ∧ bounds.Admits found.signature.offsets := by
  obtain ⟨search, hStart, built⟩ := exists_ok_of_bind built
  obtain ⟨found, hRun, built⟩ := exists_ok_of_bind built
  cases built
  obtain ⟨valid, bounds, shortest_eq, longest_eq, rfl⟩ := Search.start_eq_ok hStart
  obtain ⟨admitted, hAssign⟩ := Search.run_eq_ok hRun
  exact ⟨valid, found, rfl, hAssign, bounds, shortest_eq, longest_eq, admitted⟩

/-! ### The table of an assignment -/

section

variable {keywords : List Keyword} {found : Found}
  (assigned : Assigned (found.signature.samples keywords) found.values found.table)

theorem mem_samples (signature : Signature) {keyword : Keyword} (h : keyword ∈ keywords) :
    signature.sample keyword.bytes ∈ signature.samples keywords :=
  List.mem_map_of_mem h

/-- Filled slots are the hashes in the table of the attempt. -/
theorem slots_ofFound {hash index : Nat} :
    (ofFound keywords found).slots[hash]? = some (some index)
      ↔ found.table.owner? hash = some index := by
  rw [ofFound, List.getElem?_toArray, List.getElem?_map]
  constructor
  · intro h
    obtain ⟨other, hOther, hOwner⟩ := Option.map_eq_some_iff.1 h
    obtain ⟨_, rfl⟩ := List.getElem?_eq_some_iff.1 hOther
    rwa [List.getElem_range] at hOwner
  · intro hOwner
    have hash_lt := Nat.lt_succ_of_le (HashTable.le_maxHash hOwner)
    rw [List.getElem?_range hash_lt, Option.map_some, hOwner]

theorem maxHash_ofFound : (ofFound keywords found).maxHash = found.table.maxHash := by
  simp [maxHash, ofFound]

include assigned in
/-- Look-ups give a keyword the hash that the search gave it. -/
theorem hashSum_ofFound {keyword : Keyword} (h : keyword ∈ keywords) :
    ((ofFound keywords found).hashSum keyword.bytes : Int)
      = (found.signature.sample keyword.bytes).hash found.values := by
  apply hashSum_eq_hash
  intro c hc
  obtain ⟨nonneg, value_le⟩ := assigned.sampled _ (mem_samples _ h) c hc
  exact ⟨nonneg, Int.lt_of_le_of_lt value_le (by decide)⟩

include assigned in
/-- A character has no greater value than the hash of any keyword that it is sampled from. -/
theorem value_range_ofFound (c : UInt8) : found.values.get c = unused ∨
    0 ≤ found.values.get c ∧ found.values.get c ≤ (ofFound keywords found).maxHash := by
  by_cases sampled : ∃ keyword ∈ keywords, c ∈ found.signature.realize keyword.bytes
  · obtain ⟨keyword, hKeyword, hc⟩ := sampled
    have hSample := mem_samples found.signature hKeyword
    have inRange := assigned.sampled _ hSample
    obtain ⟨index, hIndex⟩ := List.getElem?_of_mem hSample
    have hash_le := HashTable.le_maxHash (assigned.lists.owner_eq hIndex)
    have value_le := Sample.le_hash (fun d hd => (inRange d hd).1) hc
    right
    refine ⟨(inRange c hc).1, Int.le_trans value_le ?_⟩
    rw [maxHash_ofFound]
    exact Int.toNat_le.1 hash_le
  · left
    apply assigned.unsampled
    intro sample hSample hc
    obtain ⟨keyword, hKeyword, rfl⟩ := List.mem_map.1 hSample
    exact sampled ⟨keyword, hKeyword, hc⟩

include assigned in
theorem perfect_ofFound (nodup : (keywords.map (·.text)).Nodup) :
    (ofFound keywords found).Perfect where
  nodup := nodup
  hasLength := by
    intro keyword hKeyword
    have hLength := List.mem_map_of_mem (f := Keyword.length) hKeyword
    rw [hasLength_iff]
    exact ⟨List.min?_getD_le_of_mem hLength, List.le_max?_getD_of_mem hLength⟩
  slot_iff := by
    intro hash index
    rw [slots_ofFound, assigned.lists.owner_iff_keyword]
    apply exists_congr
    intro keyword
    apply and_congr_right
    intro hKeyword
    rw [← hashSum_ofFound assigned (List.mem_of_getElem? hKeyword), Int.ofNat_inj]
  value_range := value_range_ofFound assigned

end

/-- Every table that is built gives its keywords slots of their own. -/
theorem perfect_of_build {keywords : List Keyword} {maxTries : Nat} {table : Table}
    (built : build keywords maxTries = .ok table) : table.keywords = keywords ∧ table.Perfect := by
  obtain ⟨valid, found, rfl, hAssign, _⟩ := build_eq_ok built
  exact ⟨rfl, perfect_ofFound (assigned_of_assign hAssign) valid.nodup⟩

/-- Three words, of which one begins with another. -/
def reservedWords : List Keyword :=
  [{ text := "if", payload := "If" }, { text := "in", payload := "In" },
    { text := "int", payload := "Int" }]

/-- The table of the three words. Only their second characters are sampled. -/
def reservedTable : Table where
  keywords := reservedWords
  signature := { offsets := [1], ne_nil := by decide, increasing := by decide }
  values :=
    { cells := ((Vector.replicate asciiCount unused).set 102 2 (by decide)).set 110 0 (by decide) }
  slots := #[none, none, some 1, some 2, some 0]
  minWordLength := 2
  maxWordLength := 3
  stats := { signaturesTried := 2, adjustments := 2 }

theorem build_reserved : build reservedWords 100 = .ok reservedTable := by
  decide +kernel

end KeywordHash.Table
