/-
Module: KeywordHash.Proofs.Table.HashAgreement
Layer: Proofs
Purpose: The hash of a look-up compared with the hash of a search, for every word and every table that can
  be had. They agree on the words that the values cover (`Table.Covers`); any other word is hashed past
  the last slot, because one character without a value already counts more than the greatest hash, and
  nothing that is added to it is negative. Only characters without a value count as much as the sentinel.
Imports: KeywordHash.Proofs.Table.Loaded
Trusted boundary: none
Main exports: Table.Covers, Table.Consistent.value_eq_sentinel_iff, Table.Obtained.hashSum_eq_of_covers,
  Table.sentinel_le_hashSum, Table.Obtained.hash_eq_or_past
Open obligations: none
-/
import KeywordHash.Proofs.Table.Loaded

namespace KeywordHash.Table

variable {table : Table}

/-- Every character that the word has at an offset is ASCII and has a value. -/
def Covers (table : Table) (word : List UInt8) : Prop :=
  ∀ offset ∈ table.signature.offsets, ∀ c, word[offset]? = some c →
    c.toNat < asciiCount ∧ table.values.get c ≠ unused

/-- A character counts as much as the sentinel if and only if it has no value. -/
theorem Consistent.value_eq_sentinel_iff (consistent : table.Consistent) (c : UInt8) :
    table.value c = table.sentinel ↔ table.values.isUnused c := by
  rw [AssociatedValues.isUnused, decide_eq_true_iff]
  constructor
  · intro same
    rcases consistent.get_range c with isUnused | ⟨nonneg, value_le⟩
    · exact isUnused
    · -- a possible hash would be less than the sentinel
      have value_le := value_le_maxHash nonneg value_le
      rw [same] at value_le
      exact absurd value_le (Nat.not_succ_le_self _)
  · exact value_of_unused

/-- Look-ups and searches give one hash to every word that the values cover. -/
theorem Obtained.hashSum_eq_of_covers (obtained : table.Obtained) {word : List UInt8}
    (covers : table.Covers word) :
    (table.hashSum word : Int) = (table.signature.sample word).hash table.values := by
  apply hashSum_eq_hash
  intro c hc
  obtain ⟨offset, hOffset, hc⟩ := Signature.mem_realize_iff.1 hc
  have used := (covers offset hOffset c hc).2
  have nonneg := ((obtained.consistent.get_range c).resolve_left used).1
  exact ⟨nonneg, Int.lt_of_le_of_lt (obtained.value_le c) (by decide)⟩

/-- A word that the values do not cover counts the sentinel on top of its length. -/
theorem sentinel_le_hashSum {word : List UInt8} (uncovered : ¬ table.Covers word) :
    word.length + table.sentinel ≤ table.hashSum word := by
  simp only [Covers, not_forall] at uncovered
  obtain ⟨offset, hOffset, c, hc, uncovered⟩ := uncovered
  have isUnused : table.values.get c = unused := by
    rcases Nat.lt_or_ge c.toNat asciiCount with ascii | past
    · exact of_not_not fun used => uncovered ⟨ascii, used⟩
    · exact AssociatedValues.get_of_le _ past
  have sampled := Signature.mem_realize_iff.2 ⟨offset, hOffset, hc⟩
  have term_le : table.value c ≤ ((table.signature.realize word).map table.value).sum :=
    List.single_le_sum (fun _ _ => Nat.zero_le _) _ (List.mem_map_of_mem sampled)
  rw [value_of_unused isUnused] at term_le
  exact Nat.add_le_add_left term_le _

/-- In every table that a build or a document gives, and for every word whose sum is below 2⁶³: the word
    has the hash of a search if the values cover it, and else a hash past that of the last slot by at
    least its length. Exactly the characters without a value count as much as the sentinel. -/
theorem Obtained.hash_eq_or_past (obtained : table.Obtained) :
    (∀ word : List UInt8, table.hashSum word < 2 ^ 63 →
      ∃ hash, table.hash word = .ok hash
        ∧ (table.Covers word → (hash : Int) = (table.signature.sample word).hash table.values)
        ∧ (¬ table.Covers word →
            word.length + table.sentinel ≤ hash ∧ table.maxHash < word.length + table.sentinel))
      ∧ ∀ c : UInt8, table.value c = table.sentinel ↔ table.values.isUnused c := by
  refine ⟨?_, obtained.consistent.value_eq_sentinel_iff⟩
  intro word sum_lt
  refine ⟨table.hashSum word, hash_eq_ok (Nat.lt_trans sum_lt (by decide)), ?_, ?_⟩
  · exact obtained.hashSum_eq_of_covers
  · intro uncovered
    exact ⟨sentinel_le_hashSum uncovered, Nat.lt_add_left _ (Nat.lt_succ_self table.maxHash)⟩

/-- The table of three words covers `on`, which is no keyword and has the hash of one, and does not cover
    `is`, which is hashed past the last slot. -/
theorem hash_reserved_on_is :
    reservedTable.Obtained
      ∧ reservedTable.hashSum (Text.bytes "on") < 2 ^ 63
      ∧ reservedTable.hashSum (Text.bytes "is") < 2 ^ 63
      ∧ (∃ hash, reservedTable.hash (Text.bytes "on") = .ok hash
          ∧ (hash : Int)
            = (reservedTable.signature.sample (Text.bytes "on")).hash reservedTable.values)
      ∧ ∃ hash, reservedTable.hash (Text.bytes "is") = .ok hash ∧ reservedTable.maxHash < hash := by
  have obtained : reservedTable.Obtained := .built reservedWords 100 build_reserved
  have on_lt : reservedTable.hashSum (Text.bytes "on") < 2 ^ 63 := by decide +kernel
  have is_lt : reservedTable.hashSum (Text.bytes "is") < 2 ^ 63 := by decide +kernel
  have on_covered : reservedTable.Covers (Text.bytes "on") := by
    intro offset hOffset c hc
    have second : (Text.bytes "on")[1]? = some 110 := by decide +kernel
    rw [List.mem_singleton.1 hOffset, second] at hc
    cases hc
    decide +kernel
  have is_uncovered : ¬ reservedTable.Covers (Text.bytes "is") := by
    intro covers
    have used := (covers 1 (by decide) 115 (by decide +kernel)).2
    exact used (by decide +kernel)
  obtain ⟨onHash, hOn, agrees, _⟩ := obtained.hash_eq_or_past.1 _ on_lt
  obtain ⟨isHash, hIs, _, past⟩ := obtained.hash_eq_or_past.1 _ is_lt
  obtain ⟨sentinel_le, maxHash_lt⟩ := past is_uncovered
  exact ⟨obtained, on_lt, is_lt, ⟨onHash, hOn, agrees on_covered⟩,
    isHash, hIs, Nat.lt_of_lt_of_le maxHash_lt sentinel_le⟩

end KeywordHash.Table
