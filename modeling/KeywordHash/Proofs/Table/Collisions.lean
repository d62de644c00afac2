/-
Module: KeywordHash.Proofs.Table.Collisions
Layer: Proofs
Purpose: Which collisions are told of a table. The record that is kept of the keywords has the latest one
  with each hash (`Recorded`), so a keyword is reported behind the nearest one in front of it that shares its
  hash (`Chained`), and keywords with one hash make up a chain. Every keyword is reported or has a hash that
  is new, so the reports and the different hashes are as many as the keywords (`collisions_chain`).
Imports: KeywordHash.Proofs.Outcome, KeywordHash.Proofs.Table.Hash, KeywordHash.Table.Verification,
  Mathlib.Data.Finset.Card, Mathlib.Data.Fintype.Card
Trusted boundary: none
Main exports: Table.hashAt, Table.Chained, Table.Latest, Table.latest_succ_iff, Table.Recorded.next,
  Table.Chain, Table.exists_chain_of_recorded, Table.length_add_card_of_collisionsFrom,
  Table.collisions_chain
Open obligations: none
-/
import KeywordHash.Proofs.Outcome
import KeywordHash.Proofs.Table.Hash
import KeywordHash.Table.Verification
import Mathlib.Data.Finset.Card
import Mathlib.Data.Fintype.Card

namespace KeywordHash.Table

variable {table : Table}

/-- The hash of the keyword at a position. -/
def hashAt (table : Table) (position : Fin table.keywords.length) : Nat :=
  table.hashSum table.keywords[position].bytes

/-- The text of the keyword at a position. -/
def textAt (table : Table) (position : Fin table.keywords.length) : String :=
  table.keywords[position].text

/-- What is reported of a keyword: the text that the record has for its hash, and its own. -/
def report? (table : Table) (owners : List (Nat × String)) (keyword : Keyword) : Option (String × String) :=
  (owners.lookup (table.hashSum keyword.bytes)).map fun previous => (previous, keyword.text)

section

variable {keyword : Keyword} {rest : List Keyword} {owners : List (Nat × String)}

/-- The report on the first keyword, if there is one, stands in front of those on the others, for which the
    first is on record. -/
theorem collisionsFrom_cons (sum_lt : table.hashSum keyword.bytes < wordLimit) :
    table.collisionsFrom owners (keyword :: rest)
      = (table.collisionsFrom ((table.hashSum keyword.bytes, keyword.text) :: owners) rest).map
        ((table.report? owners keyword).toList ++ ·) := by
  rw [collisionsFrom, hash_eq_ok sum_lt, ok_bind, report?]
  cases table.collisionsFrom _ rest with
  | error fault => rfl
  | ok later => cases owners.lookup (table.hashSum keyword.bytes) <;> rfl

/-- If the collisions can be told, the hash of the first keyword is a machine word. -/
theorem exists_later_of_collisionsFrom {pairs : List (String × String)}
    (h : table.collisionsFrom owners (keyword :: rest) = .ok pairs) :
    table.hashSum keyword.bytes < wordLimit
      ∧ ∃ later, table.collisionsFrom ((table.hashSum keyword.bytes, keyword.text) :: owners) rest
          = .ok later
        ∧ (table.report? owners keyword).toList ++ later = pairs := by
  have sum_lt : table.hashSum keyword.bytes < wordLimit := by
    rw [collisionsFrom] at h
    obtain ⟨hash, hHash, _⟩ := exists_ok_of_bind h
    exact sum_lt_of_hash hHash
  rw [collisionsFrom_cons sum_lt] at h
  exact ⟨sum_lt, exists_ok_of_map h⟩

end

/-- Two keywords share a hash that no keyword between them has. -/
structure Chained (table : Table) (first second : Fin table.keywords.length) : Prop where
  lt : first < second
  hash_eq : table.hashAt first = table.hashAt second
  between : ∀ other, first < other → other < second → table.hashAt other ≠ table.hashAt second

/-! ### The latest keyword with a hash -/

/-- The last position in front of an index at which a keyword has the hash. -/
structure Latest (table : Table) (index hash : Nat) (position : Fin table.keywords.length) : Prop where
  lt : position < index
  hash_eq : table.hashAt position = hash
  behind : ∀ other : Fin table.keywords.length, position < other → other < index →
    table.hashAt other ≠ hash

section

variable {first second current position : Fin table.keywords.length} {index hash : Nat}

/-- Chained keywords are one and the latest in front of it with the same hash. -/
theorem chained_iff_latest :
    table.Chained first second ↔ table.Latest second (table.hashAt second) first :=
  ⟨fun h => ⟨h.lt, h.hash_eq, h.between⟩, fun h => ⟨h.lt, h.hash_eq, h.behind⟩⟩

/-- A keyword has one latest position. -/
theorem Latest.unique {other : Fin table.keywords.length} (latest : table.Latest index hash position)
    (hOther : table.Latest index hash other) : position = other := by
  apply le_antisymm
  · exact not_lt.1 fun lt => hOther.behind position lt latest.lt latest.hash_eq
  · exact not_lt.1 fun lt => latest.behind other lt hOther.lt hOther.hash_eq

/-- Behind a keyword this keyword is the latest with its hash, and for all other hashes nothing changes. -/
theorem latest_succ_iff : table.Latest (current + 1) hash position ↔
    position = current ∧ table.hashAt current = hash
      ∨ table.hashAt current ≠ hash ∧ table.Latest current hash position := by
  constructor
  · intro latest
    rcases Nat.lt_succ_iff_lt_or_eq.1 latest.lt with lt | same
    · have differs := latest.behind current lt (Nat.lt_succ_self _)
      exact Or.inr ⟨differs, lt, latest.hash_eq, fun other behind other_lt =>
        latest.behind other behind (Nat.lt_succ_of_lt other_lt)⟩
    · have same := Fin.ext same
      exact Or.inl ⟨same, same ▸ latest.hash_eq⟩
  · rintro (⟨rfl, same⟩ | ⟨differs, latest⟩)
    · exact ⟨Nat.lt_succ_self _, same, fun other behind other_lt =>
        absurd behind (Nat.not_lt.2 (Nat.le_of_lt_succ other_lt))⟩
    · refine ⟨Nat.lt_succ_of_lt latest.lt, latest.hash_eq, fun other behind other_lt => ?_⟩
      rcases Nat.lt_succ_iff_lt_or_eq.1 other_lt with lt | same
      · exact latest.behind other behind lt
      · rwa [Fin.ext same]

end

/-- The record has the text of the latest keyword with each hash. -/
def Recorded (table : Table) (index : Nat) (owners : List (Nat × String)) : Prop :=
  ∀ hash text, owners.lookup hash = some text ↔
    ∃ position, table.Latest index hash position ∧ table.textAt position = text

theorem recorded_nil : table.Recorded 0 [] := by
  intro hash text
  constructor
  · intro h
    cases h
  · rintro ⟨position, latest, _⟩
    exact absurd latest.lt (Nat.not_lt_zero _)

/-- The record stays right if the keyword at the index is entered in front. -/
theorem Recorded.next {current : Fin table.keywords.length} {owners : List (Nat × String)}
    (recorded : table.Recorded current owners) :
    table.Recorded (current + 1) ((table.hashAt current, table.textAt current) :: owners) := by
  intro hash text
  rw [List.lookup_cons]
  by_cases same : table.hashAt current = hash
  · simp [latest_succ_iff, same]
  · have differs : (hash == table.hashAt current) = false := beq_false_of_ne (Ne.symm same)
    simp [latest_succ_iff, same, differs, recorded hash text]

/-! ### Reports -/

/-- The pairs of chained keywords of which the second is not in front of the index, in the order of the
    second. -/
structure Chain (table : Table) (index : Nat)
    (places : List (Fin table.keywords.length × Fin table.keywords.length)) : Prop where
  increasing : places.Pairwise (·.2 < ·.2)
  mem_iff : ∀ first second, (first, second) ∈ places ↔ index ≤ second ∧ table.Chained first second

section

variable {current : Fin table.keywords.length}
  {places : List (Fin table.keywords.length × Fin table.keywords.length)}

theorem chain_nil {index : Nat} (past : table.keywords.length ≤ index) : table.Chain index [] where
  increasing := .nil
  mem_iff := by
    intro first second
    have inside : ¬ index ≤ second := Nat.not_le.2 (Nat.lt_of_lt_of_le second.isLt past)
    simp [inside]

/-- A keyword that is chained to one in front of it is put in front of the later reports. -/
theorem Chain.link {first : Fin table.keywords.length} (chain : table.Chain (current + 1) places)
    (chained : table.Chained first current) : table.Chain current ((first, current) :: places) where
  increasing := by
    apply List.pairwise_cons.2 ⟨_, chain.increasing⟩
    rintro ⟨other, second⟩ member
    exact ((chain.mem_iff other second).1 member).1
  mem_iff := by
    intro other second
    rw [List.mem_cons, chain.mem_iff, Prod.mk.injEq]
    constructor
    · rintro (⟨rfl, rfl⟩ | ⟨le, later⟩)
      · exact ⟨Nat.le_refl _, chained⟩
      · exact ⟨Nat.le_of_succ_le le, later⟩
    · rintro ⟨le, other_chained⟩
      rcases Nat.lt_or_eq_of_le le with lt | same
      · exact Or.inr ⟨lt, other_chained⟩
      · obtain rfl := Fin.ext same
        have latest := chained_iff_latest.1 other_chained
        exact Or.inl ⟨latest.unique (chained_iff_latest.1 chained), rfl⟩

/-- A keyword that is not chained to one in front of it adds nothing to the later reports. -/
theorem Chain.skip (chain : table.Chain (current + 1) places)
    (alone : ∀ first, ¬ table.Chained first current) : table.Chain current places where
  increasing := chain.increasing
  mem_iff := by
    intro first second
    rw [chain.mem_iff]
    refine and_congr_left fun chained => ⟨Nat.le_of_succ_le, fun le => ?_⟩
    apply Nat.lt_of_le_of_ne le
    intro same
    obtain rfl := Fin.ext same
    exact alone first chained

end

/-- The reports from one position on, with the position of each keyword in place of the keyword. -/
theorem collisionsFrom_drop {owners : List (Nat × String)} (current : Fin table.keywords.length)
    (sum_lt : table.hashAt current < wordLimit) :
    table.collisionsFrom owners (table.keywords.drop current)
      = (table.collisionsFrom ((table.hashAt current, table.textAt current) :: owners)
          (table.keywords.drop (current + 1))).map
        (((owners.lookup (table.hashAt current)).map
          fun previous => (previous, table.textAt current)).toList ++ ·) := by
  rw [List.drop_eq_getElem_cons current.isLt]
  exact collisionsFrom_cons sum_lt

/-- The reports from an index on are the chained pairs of which the second is not in front of it. The
    induction goes back from the end of the list; the record has the keywords in front of the index. -/
theorem exists_chain_of_recorded (sum_lt : ∀ position, table.hashAt position < wordLimit) {index : Nat}
    (index_le : index ≤ table.keywords.length) {owners : List (Nat × String)}
    (recorded : table.Recorded index owners) :
    ∃ places, table.Chain index places
      ∧ table.collisionsFrom owners (table.keywords.drop index)
        = .ok (places.map fun place => (table.textAt place.1, table.textAt place.2)) := by
  induction index_le using Nat.decreasingInduction generalizing owners with
  | self =>
      rw [List.drop_length]
      exact ⟨[], chain_nil (Nat.le_refl _), rfl⟩
  | of_succ index index_lt ih =>
      obtain ⟨current, rfl⟩ : ∃ current : Fin table.keywords.length, ↑current = index :=
        ⟨⟨index, index_lt⟩, rfl⟩
      obtain ⟨places, chain, hLater⟩ := ih recorded.next
      rw [collisionsFrom_drop current (sum_lt current), hLater]
      cases hOwner : owners.lookup (table.hashAt current) with
      | some previous =>
          obtain ⟨first, latest, rfl⟩ := (recorded _ _).1 hOwner
          exact ⟨_, chain.link (chained_iff_latest.2 latest), rfl⟩
      | none =>
          have alone : ∀ first, ¬ table.Chained first current := by
            intro first chained
            have recalled := (recorded _ _).2 ⟨first, chained_iff_latest.1 chained, rfl⟩
            rw [hOwner] at recalled
            cases recalled
          exact ⟨places, chain.skip alone, rfl⟩

/-! ### The number of reports -/

/-- The hashes on record are those for which a text is found. -/
theorem mem_hashes_iff {owners : List (Nat × String)} {hash : Nat} :
    hash ∈ (owners.map (·.1)).toFinset ↔ (owners.lookup hash).isSome := by
  simp [List.lookup_isSome_iff, @eq_comm _ hash]

/-- Every keyword is reported or has a hash that is new: the reports and the different hashes on record in
    the end are as many as the keywords and the different hashes on record before. -/
theorem length_add_card_of_collisionsFrom {keywords : List Keyword} {owners : List (Nat × String)}
    {pairs : List (String × String)} (h : table.collisionsFrom owners keywords = .ok pairs) :
    pairs.length + ((owners.map (·.1)).toFinset
        ∪ (keywords.map fun keyword => table.hashSum keyword.bytes).toFinset).card
      = keywords.length + (owners.map (·.1)).toFinset.card := by
  induction keywords generalizing owners pairs with
  | nil =>
      cases h
      simp
  | cons keyword rest ih =>
      obtain ⟨_, later, hLater, rfl⟩ := exists_later_of_collisionsFrom h
      have step := ih hLater
      simp only [List.map_cons, List.toFinset_cons, Finset.insert_union, Finset.union_insert] at step ⊢
      rw [List.length_append, List.length_cons]
      cases hOwner : owners.lookup (table.hashSum keyword.bytes) with
      | some previous =>
          have known := mem_hashes_iff.2 (Option.isSome_of_eq_some hOwner)
          have reported : (table.report? owners keyword).toList.length = 1 := by
            simp [report?, hOwner]
          rw [Finset.insert_eq_of_mem known] at step
          omega
      | none =>
          have new : table.hashSum keyword.bytes ∉ (owners.map (·.1)).toFinset := by
            rw [mem_hashes_iff, hOwner]
            decide
          have unreported : (table.report? owners keyword).toList.length = 0 := by
            simp [report?, hOwner]
          rw [Finset.card_insert_of_notMem new] at step
          omega

/-- The collisions of a table whose keywords have hashes are told by the pairs of chained keywords, in the
    order of the later keyword. So they are as many as the keywords less the different hashes, and there is
    none if and only if different positions have different hashes. -/
theorem collisions_chain (sum_lt : ∀ keyword ∈ table.keywords, table.hashSum keyword.bytes < wordLimit) :
    (∀ position : Fin table.keywords.length,
        table.hash table.keywords[position].bytes = .ok (table.hashAt position))
      ∧ ∃ pairs, table.collisions = .ok pairs
      ∧ (∃ places : List (Fin table.keywords.length × Fin table.keywords.length),
        places.Pairwise (·.2 < ·.2)
          ∧ (∀ first second, (first, second) ∈ places ↔ table.Chained first second)
          ∧ pairs = places.map fun place => (table.textAt place.1, table.textAt place.2))
      ∧ pairs.length + (Finset.univ.image table.hashAt).card = table.keywords.length
      ∧ (pairs = [] ↔ Function.Injective table.hashAt) := by
  have hashAt_lt : ∀ position, table.hashAt position < wordLimit :=
    fun _ => sum_lt _ (List.getElem_mem _)
  obtain ⟨places, chain, hPairs⟩ :=
    exists_chain_of_recorded hashAt_lt (Nat.zero_le _) recorded_nil
  rw [List.drop_zero] at hPairs
  have count := length_add_card_of_collisionsFrom hPairs
  have distinct : (table.keywords.map fun keyword => table.hashSum keyword.bytes).toFinset
      = Finset.univ.image table.hashAt := by
    rw [← List.ofFn_getElem_eq_map]
    ext hash
    simp [hashAt]
  simp only [distinct, List.map_nil, List.toFinset_nil, Finset.empty_union, Finset.card_empty,
    add_zero] at count
  have injective_iff : (Finset.univ.image table.hashAt).card = table.keywords.length
      ↔ Function.Injective table.hashAt := by
    simpa using @Finset.card_image_iff _ _ Finset.univ table.hashAt _
  refine ⟨fun position => hash_eq_ok (hashAt_lt position), _, hPairs,
    ⟨places, chain.increasing, ?_, rfl⟩, count, ?_⟩
  · intro first second
    simp [chain.mem_iff]
  · rw [← injective_iff, ← List.length_eq_zero_iff]
    omega

/-- A table that samples nothing of its words, so that they hash to their lengths, which are one and two in
    turn. -/
def mixedLengthTable : Table where
  keywords :=
    [{ text := "a", payload := "A" }, { text := "b", payload := "B" }, { text := "if", payload := "If" },
      { text := "c", payload := "C" }, { text := "of", payload := "Of" }]
  signature := { offsets := [2], ne_nil := by decide, increasing := by decide }
  values := .constant 0
  slots := #[none, some 0, some 2]
  minWordLength := 1
  maxWordLength := 2

/-- The third word of one character is reported behind the second and not behind the first, and after it
    the words of two characters are. There are two hashes for five words, so there are three reports. -/
theorem collisions_chain_mixedLength :
    (∀ keyword ∈ mixedLengthTable.keywords, mixedLengthTable.hashSum keyword.bytes < wordLimit)
      ∧ mixedLengthTable.collisions = .ok [("a", "b"), ("b", "c"), ("if", "of")]
      ∧ (∃ places : List (Fin 5 × Fin 5),
        places.Pairwise (·.2 < ·.2)
          ∧ (∀ first second, (first, second) ∈ places ↔ mixedLengthTable.Chained first second)
          ∧ [("a", "b"), ("b", "c"), ("if", "of")] = places.map fun place =>
            (mixedLengthTable.textAt place.1, mixedLengthTable.textAt place.2))
      ∧ 3 + (Finset.univ.image mixedLengthTable.hashAt).card = 5
      ∧ ¬ Function.Injective mixedLengthTable.hashAt := by
  have sum_lt : ∀ keyword ∈ mixedLengthTable.keywords,
      mixedLengthTable.hashSum keyword.bytes < wordLimit := by decide +kernel
  have computed : mixedLengthTable.collisions = .ok [("a", "b"), ("b", "c"), ("if", "of")] := by
    decide +kernel
  obtain ⟨_, pairs, hPairs, chain, count, none_iff⟩ := collisions_chain sum_lt
  cases hPairs.symm.trans computed
  exact ⟨sum_lt, computed, chain, count, fun injective => by cases none_iff.2 injective⟩

end KeywordHash.Table
