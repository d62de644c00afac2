/-
Module: KeywordHash.Proofs.Table.Hash
Layer: Proofs
Purpose: The hash that look-ups take and the hash that a search takes. The one adds machine words, with
  the sentinel for unused characters; the other adds signed values. They agree on every word whose
  sampled characters all have a value (`hashSum_eq_hash`), and no value exceeds the sentinel where the
  values are unused or possible hashes (`value_le_sentinel`).
Imports: KeywordHash.Proofs.Signature.Sample, KeywordHash.Table,
  Mathlib.Algebra.Order.BigOperators.Group.List, Mathlib.Algebra.Order.Group.Nat
Trusted boundary: none
Main exports: Table.value_of_nonneg, Table.hashSum_eq_hash, Table.value_le_sentinel, Table.hashSum_le,
  Table.hashSum_of_unused, Table.hashSum_lt, Table.hash_eq_ok, Table.sum_lt_of_hash
Open obligations: none
-/
import KeywordHash.Proofs.Signature.Sample
import KeywordHash.Table
import Mathlib.Algebra.Order.BigOperators.Group.List
import Mathlib.Algebra.Order.Group.Nat

namespace KeywordHash.Table

/-- An unused character counts the sentinel. -/
theorem value_of_unused {table : Table} {c : UInt8} (h : table.values.get c = unused) :
    table.value c = table.sentinel := by
  rw [value, AssociatedValues.isUnused, h]
  rfl

theorem not_isUnused_of_nonneg {values : AssociatedValues} {c : UInt8} (nonneg : 0 ≤ values.get c) :
    ¬ values.isUnused c := by
  intro isUnused
  rw [AssociatedValues.isUnused, decide_eq_true_iff] at isUnused
  rw [isUnused] at nonneg
  exact absurd nonneg (by decide)

/-- A value that is a machine word counts as it is. -/
theorem value_of_nonneg {table : Table} {c : UInt8} (nonneg : 0 ≤ table.values.get c)
    (value_lt : table.values.get c < wordLimit) : (table.value c : Int) = table.values.get c := by
  rw [value, if_neg (not_isUnused_of_nonneg nonneg), Int.emod_eq_of_lt nonneg value_lt,
    Int.toNat_of_nonneg nonneg]

/-- Look-ups and searches give one hash to a word whose sampled characters all have a value. -/
theorem hashSum_eq_hash {table : Table} {word : List UInt8}
    (inRange : ∀ c ∈ table.signature.realize word,
      0 ≤ table.values.get c ∧ table.values.get c < wordLimit) :
    (table.hashSum word : Int) = (table.signature.sample word).hash table.values := by
  rw [hashSum, Sample.hash, Signature.sample, Int.natCast_add]
  congr 1
  generalize table.signature.realize word = characters at inRange
  induction characters with
  | nil => rfl
  | cons c rest ih =>
      rw [List.forall_mem_cons] at inRange
      rw [List.map_cons, List.foldr_cons, List.map_cons, List.foldr_cons, Int.natCast_add,
        value_of_nonneg inRange.1.1 inRange.1.2, ih inRange.2]

/-- A possible hash counts no more than the greatest hash. -/
theorem value_le_maxHash {table : Table} {c : UInt8} (nonneg : 0 ≤ table.values.get c)
    (value_le : table.values.get c ≤ table.maxHash) : table.value c ≤ table.maxHash := by
  have used : ¬ table.values.isUnused c := not_isUnused_of_nonneg nonneg
  obtain ⟨n, hn⟩ := Int.eq_ofNat_of_zero_le nonneg
  rw [hn] at value_le
  rw [value, if_neg used, hn, ← Int.natCast_emod, Int.toNat_natCast]
  calc n % wordLimit
      ≤ n := Nat.mod_le n wordLimit
    _ ≤ table.maxHash := Int.ofNat_le.1 value_le

/-- No character counts more than the sentinel if its value is unused or a possible hash. -/
theorem value_le_sentinel {table : Table} {c : UInt8}
    (h : table.values.get c = unused ∨
      0 ≤ table.values.get c ∧ table.values.get c ≤ table.maxHash) :
    table.value c ≤ table.sentinel := by
  rcases h with isUnused | ⟨nonneg, value_le⟩
  · exact Nat.le_of_eq (value_of_unused isUnused)
  · exact Nat.le_succ_of_le (value_le_maxHash nonneg value_le)

/-- If no sampled character counts more than a bound, the hash exceeds the length by as many times the bound
    as there are offsets within the word, at most. -/
theorem hashSum_le {table : Table} {word : List UInt8} {bound : Nat}
    (value_le : ∀ c ∈ table.signature.realize word, table.value c ≤ bound) :
    table.hashSum word
      ≤ word.length + (table.signature.sampledOffsets word.length).length * bound := by
  have sum_le := List.sum_le_card_nsmul ((table.signature.realize word).map table.value) bound
    (by simpa using value_le)
  rw [List.length_map, Nat.nsmul_eq_mul, Signature.length_realize] at sum_le
  rw [hashSum, ← List.sum_eq_foldr]
  exact Nat.add_le_add_left sum_le _

/-- If everything that is sampled is unused, the hash exceeds the length by as many times the sentinel as
    there are offsets within the word. -/
theorem hashSum_of_unused {table : Table} {word : List UInt8}
    (isUnused : ∀ c ∈ table.signature.realize word, table.values.get c = unused) :
    table.hashSum word
      = word.length + (table.signature.sampledOffsets word.length).length * table.sentinel := by
  have value_eq : ∀ value ∈ (table.signature.realize word).map table.value, value = table.sentinel := by
    intro value hValue
    obtain ⟨c, hc, rfl⟩ := List.mem_map.1 hValue
    exact value_of_unused (isUnused c hc)
  rw [hashSum, ← List.sum_eq_foldr, List.eq_replicate_of_mem value_eq, List.sum_replicate,
    Nat.nsmul_eq_mul, List.length_map, Signature.length_realize]

/-- Words of fewer than 2³² bytes hash below 2⁶³ if all that is sampled counts less than 2³¹, because
    no more characters are sampled than the word has. -/
theorem hashSum_lt {table : Table} {word : List UInt8} (length_lt : word.length < 2 ^ 32)
    (value_lt : ∀ c ∈ table.signature.realize word, table.value c < 2 ^ 31) :
    table.hashSum word < 2 ^ 63 := by
  have sum_le := hashSum_le fun c hc => Nat.le_sub_one_of_lt (value_lt c hc)
  have sampled_le := table.signature.length_realize_le word
  rw [Signature.length_realize] at sampled_le
  omega

/-- The hash of a word is the sum if this is a machine word. -/
theorem hash_eq_ok {table : Table} {word : List UInt8} (sum_lt : table.hashSum word < wordLimit) :
    table.hash word = .ok (table.hashSum word) :=
  if_pos sum_lt

/-- The sum is a machine word if the word has a hash. -/
theorem sum_lt_of_hash {table : Table} {word : List UInt8} {hash : Nat}
    (h : table.hash word = .ok hash) : table.hashSum word < wordLimit := by
  rw [Table.hash] at h
  by_cases sum_lt : table.hashSum word < wordLimit
  · exact sum_lt
  · rw [if_neg sum_lt] at h
    cases h

end KeywordHash.Table
