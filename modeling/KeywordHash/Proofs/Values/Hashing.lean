/-
Module: KeywordHash.Proofs.Values.Hashing
Layer: Proofs
Purpose: Hashes depend on the values of the sampled characters only, and are no less than any of these
  values. A table that comes from hashing lists the hashes of the samples with their indices
  (`HashTable.Lists`), so a hash belongs to one sample only.
Imports: KeywordHash.Values.Hashing, Mathlib.Algebra.Order.BigOperators.Group.List,
  Mathlib.Algebra.Order.Group.Int
Trusted boundary: none
Main exports: Sample.hash_congr, Sample.hash_nonneg, Sample.le_hash, HashTable.Lists,
  HashTable.Lists.insert, HashTable.Lists.congr, HashTable.Lists.nodup_hashes, HashTable.le_maxHash,
  HashTable.exists_owner_maxHash, exists_hashFrom, lists_of_hashAll
Open obligations: none
-/
import KeywordHash.Values.Hashing
import Mathlib.Algebra.Order.BigOperators.Group.List
import Mathlib.Algebra.Order.Group.Int

namespace KeywordHash

namespace Sample

/-- A hash depends on the values of the sampled characters only. -/
theorem hash_congr {sample : Sample} {values others : AssociatedValues}
    (same : ∀ c ∈ sample.characters, values.get c = others.get c) :
    sample.hash values = sample.hash others := by
  rw [hash, hash, List.map_congr_left same]

section

variable {sample : Sample} {values : AssociatedValues}
  (nonneg : ∀ c ∈ sample.characters, 0 ≤ values.get c)

include nonneg

theorem terms_nonneg : ∀ value ∈ sample.characters.map values.get, 0 ≤ value := by
  intro value hValue
  obtain ⟨c, hc, rfl⟩ := List.mem_map.1 hValue
  exact nonneg c hc

/-- If no sampled character has a negative value, the hash is not negative. -/
theorem hash_nonneg : 0 ≤ sample.hash values := by
  have sum_nonneg := List.sum_nonneg (terms_nonneg nonneg)
  rw [hash, ← List.sum_eq_foldr]
  omega

/-- If no sampled character has a negative value, each of these values is at most the hash. -/
theorem le_hash {c : UInt8} (hc : c ∈ sample.characters) : values.get c ≤ sample.hash values := by
  have term_le : values.get c ≤ (sample.characters.map values.get).sum :=
    List.single_le_sum (terms_nonneg nonneg) _ (List.mem_map_of_mem hc)
  rw [hash, ← List.sum_eq_foldr]
  omega

end

end Sample

/-- Behind a list with one more element stands this element. -/
theorem getElem?_append_singleton {α : Type} {list : List α} {a b : α} {index : Nat} :
    (list ++ [a])[index]? = some b ↔ list[index]? = some b ∨ index = list.length ∧ a = b := by
  rcases Nat.lt_trichotomy index list.length with inside | rfl | past
  · rw [List.getElem?_append_left inside]
    simp [Nat.ne_of_lt inside]
  · simp
  · have behind : (list ++ [a]).length ≤ index := by
      rw [List.length_append, List.length_singleton]
      exact past
    rw [List.getElem?_eq_none behind, List.getElem?_eq_none (Nat.le_of_lt past)]
    simp [Nat.ne_of_gt past]

namespace HashTable

/-- The table lists the hashes of the samples, each with the index of its sample. No two samples can
    have one hash then, because a hash has one owner only. -/
structure Lists (table : HashTable) (values : AssociatedValues) (samples : List Sample) : Prop where
  hash_nonneg : ∀ sample ∈ samples, 0 ≤ sample.hash values
  owner_iff : ∀ hash index, table.owner? hash = some index ↔
    ∃ sample, samples[index]? = some sample ∧ sample.hash values = (hash : Int)

/-- The empty table lists no hashes. -/
theorem lists_nil (values : AssociatedValues) : ({} : HashTable).Lists values [] where
  hash_nonneg := by simp
  owner_iff := by simp [owner?]

theorem owner?_insert (table : HashTable) (hash index other : Nat) :
    (table.insert hash index).owner? other
      = if other = hash then some index else table.owner? other := by
  rw [owner?, HashTable.insert, List.lookup_cons]
  by_cases same : other = hash
  · rw [if_pos same, beq_iff_eq.2 same]
  · rw [if_neg same, beq_eq_false_iff_ne.2 same, owner?]

/-- Giving a free hash to the next sample keeps the table right. -/
theorem Lists.insert {table : HashTable} {values : AssociatedValues} {before : List Sample}
    {sample : Sample} {hash : Nat} (lists : table.Lists values before)
    (hHash : sample.hash values = (hash : Int)) (free : table.owner? hash = none) :
    (table.insert hash before.length).Lists values (before ++ [sample]) where
  hash_nonneg := by
    intro other hOther
    rcases List.mem_append.1 hOther with hBefore | hLast
    · exact lists.hash_nonneg other hBefore
    · rw [List.mem_singleton.1 hLast, hHash]
      exact Int.natCast_nonneg hash
  owner_iff := by
    intro other index
    rw [owner?_insert]
    split
    · next same =>
        subst same
        constructor
        · intro h
          cases h
          exact ⟨sample, getElem?_append_singleton.2 (Or.inr ⟨rfl, rfl⟩), hHash⟩
        · rintro ⟨found, hFound, hOther⟩
          rcases getElem?_append_singleton.1 hFound with earlier | ⟨rfl, _⟩
          · -- an earlier sample would own the hash already
            have owned := (lists.owner_iff other index).2 ⟨found, earlier, hOther⟩
            rw [free] at owned
            cases owned
          · rfl
    · next differs =>
        rw [lists.owner_iff]
        constructor
        · rintro ⟨found, hFound, hOther⟩
          exact ⟨found, getElem?_append_singleton.2 (Or.inl hFound), hOther⟩
        · rintro ⟨found, hFound, hOther⟩
          rcases getElem?_append_singleton.1 hFound with earlier | ⟨_, rfl⟩
          · exact ⟨found, earlier, hOther⟩
          · rw [hHash] at hOther
            exact absurd (Int.ofNat_inj.1 hOther).symm differs

/-- A table lists the hashes under other values that give the samples the same hashes. -/
theorem Lists.congr {table : HashTable} {values others : AssociatedValues} {samples : List Sample}
    (lists : table.Lists values samples)
    (same : ∀ sample ∈ samples, sample.hash others = sample.hash values) :
    table.Lists others samples where
  hash_nonneg := by
    intro sample hSample
    rw [same sample hSample]
    exact lists.hash_nonneg sample hSample
  owner_iff := by
    intro hash index
    rw [lists.owner_iff]
    constructor
    · rintro ⟨sample, hSample, hHash⟩
      exact ⟨sample, hSample, by rw [same sample (List.mem_of_getElem? hSample), hHash]⟩
    · rintro ⟨sample, hSample, hHash⟩
      exact ⟨sample, hSample, by rw [← same sample (List.mem_of_getElem? hSample), hHash]⟩

/-- The hash of a sample belongs to its index. -/
theorem Lists.owner_eq {table : HashTable} {values : AssociatedValues} {samples : List Sample}
    (lists : table.Lists values samples) {index : Nat} {sample : Sample}
    (hSample : samples[index]? = some sample) :
    table.owner? (sample.hash values).toNat = some index := by
  have nonneg := lists.hash_nonneg sample (List.mem_of_getElem? hSample)
  exact (lists.owner_iff _ _).2 ⟨sample, hSample, (Int.toNat_of_nonneg nonneg).symm⟩

/-- No two samples have one hash, because each owns its own. -/
theorem Lists.nodup_hashes {table : HashTable} {values : AssociatedValues} {samples : List Sample}
    (lists : table.Lists values samples) : (samples.map (·.hash values)).Nodup := by
  rw [List.Nodup, List.pairwise_iff_getElem]
  intro i j hi hj lt same
  rw [List.length_map] at hi hj
  rw [List.getElem_map, List.getElem_map] at same
  have owner_i := lists.owner_eq (List.getElem?_eq_getElem hi)
  have owner_j := lists.owner_eq (List.getElem?_eq_getElem hj)
  rw [same, owner_j] at owner_i
  exact Nat.ne_of_gt lt (Option.some.inj owner_i)

/-- No hash that has an owner is past the greatest hash. -/
theorem le_maxHash {table : HashTable} {hash index : Nat} (h : table.owner? hash = some index) :
    hash ≤ table.maxHash := by
  obtain ⟨entries⟩ := table
  rw [owner?] at h
  rw [maxHash]
  induction entries with
  | nil => cases h
  | cons entry rest ih =>
      rw [List.lookup_cons] at h
      rw [List.foldr_cons]
      split at h
      · next same =>
          rw [beq_iff_eq.1 same]
          exact Nat.le_max_left _ _
      · exact Nat.le_trans (ih h) (Nat.le_max_right _ _)

/-- The greatest hash is one of the entries. -/
theorem exists_entry_maxHash {entries : List (Nat × Nat)} (ne_nil : entries ≠ []) :
    ∃ entry ∈ entries, entry.1 = maxHash { entries := entries } := by
  induction entries with
  | nil => exact absurd rfl ne_nil
  | cons entry rest ih =>
      have maxHash_cons : maxHash { entries := entry :: rest }
          = max entry.1 (maxHash { entries := rest }) := rfl
      rw [maxHash_cons]
      rcases Nat.le_total (maxHash { entries := rest }) entry.1 with first | later
      · exact ⟨entry, List.mem_cons_self, (Nat.max_eq_left first).symm⟩
      · rw [Nat.max_eq_right later]
        cases rest with
        | nil => exact ⟨entry, List.mem_cons_self, Nat.le_zero.1 later⟩
        | cons second others =>
            obtain ⟨greatest, hGreatest, hash_eq⟩ := ih (List.cons_ne_nil _ _)
            exact ⟨greatest, List.mem_cons_of_mem _ hGreatest, hash_eq⟩

/-- If some hash has an owner, the greatest hash has one. -/
theorem exists_owner_maxHash {table : HashTable} {hash index : Nat}
    (h : table.owner? hash = some index) : ∃ owner, table.owner? table.maxHash = some owner := by
  obtain ⟨entries⟩ := table
  have ne_nil : entries ≠ [] := by
    rintro rfl
    cases h
  obtain ⟨entry, hEntry, hash_eq⟩ := exists_entry_maxHash ne_nil
  exact Option.isSome_iff_exists.1
    (List.lookup_isSome_iff.2 ⟨entry, hEntry, beq_iff_eq.2 hash_eq.symm⟩)

end HashTable

/-- Samples can be hashed if no hash is negative. -/
theorem exists_hashFrom {values : AssociatedValues} {samples : List Sample} {index : Nat}
    {table : HashTable} (nonneg : ∀ sample ∈ samples, 0 ≤ sample.hash values) :
    ∃ hashing, hashFrom values index table samples = .ok hashing := by
  induction samples generalizing index table with
  | nil => exact ⟨_, rfl⟩
  | cons sample rest ih =>
      rw [List.forall_mem_cons] at nonneg
      obtain ⟨hash, hHash⟩ := Int.eq_ofNat_of_zero_le nonneg.1
      rw [hashFrom, hHash]
      dsimp only
      split
      · exact ⟨_, rfl⟩
      · exact ih nonneg.2

/-- Hashing the samples behind those that a table lists. The induction is on the samples that are left;
    the table lists those before them. -/
theorem lists_of_hashFrom {values : AssociatedValues} {before rest : List Sample}
    {table final : HashTable} (lists : table.Lists values before)
    (h : hashFrom values before.length table rest = .ok (.distinct final)) :
    final.Lists values (before ++ rest) := by
  induction rest generalizing before table with
  | nil =>
      cases h
      rwa [List.append_nil]
  | cons sample rest ih =>
      rw [hashFrom] at h
      split at h
      · cases h
      · next hash hHash =>
          split at h
          · cases h
          · next free =>
              have listsNext := lists.insert hHash free
              have length_eq : before.length + 1 = (before ++ [sample]).length := by simp
              rw [length_eq] at h
              simpa using ih listsNext h

/-- If all hashes are distinct, the table lists the hashes of the samples. -/
theorem lists_of_hashAll {values : AssociatedValues} {samples : List Sample} {table : HashTable}
    (h : hashAll values samples = .ok (.distinct table)) : table.Lists values samples :=
  lists_of_hashFrom (HashTable.lists_nil values) h

end KeywordHash
