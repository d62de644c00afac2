/-
Module: KeywordHash.Proofs.Table.Size
Layer: Proofs
Purpose: How large a table gets (`size_of_build`). A keyword hashes to no more than its length and, for
  each offset within it, the number of adjustments: no value is negative and together they are as many as
  the adjustments, so none exceeds these. The slots end with the greatest hash, which bounds their number
  by the longest keyword, the number of offsets and the number of tries.
Imports: KeywordHash.Proofs.Assignment.Course, KeywordHash.Proofs.Table.Representation
Trusted boundary: none
Main exports: hash_le_of_assign, Table.hashSum_le_of_assign, Table.maxHash_le_of_assign, Table.size_of_build
Open obligations: none
-/
import KeywordHash.Proofs.Assignment.Course
import KeywordHash.Proofs.Table.Representation

namespace KeywordHash

/-- An attempt that succeeds gives a keyword no greater hash than its length and, for each offset within it,
    the number of adjustments. -/
theorem hash_le_of_assign {keywords : List Keyword} {signature : Signature} {maxTries adjustments : Nat}
    {values : AssociatedValues} {table : HashTable}
    (h : assign keywords signature maxTries = .ok (.success values table adjustments))
    {keyword : Keyword} (hKeyword : keyword ∈ keywords) :
    (signature.sample keyword.bytes).hash values
      ≤ keyword.length + (signature.sampledOffsets keyword.length).length * (adjustments : Int) := by
  obtain ⟨occurrence, hOccurrence, ended⟩ := ended_of_assign h
  have hSample := Table.mem_samples signature hKeyword
  have ascii := fun c => Occurrence.ascii_of_ofSamples hOccurrence hSample (c := c)
  have length_eq : keyword.bytes.length = keyword.length := Text.length_bytes _
  cases ended with
  | success reached _ _ =>
      have hash_le := (reached.balanced hOccurrence).hash_le ascii
      rw [hash_retire_of_mem hOccurrence _ hSample]
      simpa [Signature.sample, Signature.length_realize, length_eq] using hash_le

namespace Table

variable {keywords : List Keyword} {maxTries : Nat}

/-- Look-ups take the same hashes, so they have the same bound. -/
theorem hashSum_le_of_assign {found : Found}
    (h : assign keywords found.signature maxTries
      = .ok (.success found.values found.table found.adjustments))
    {keyword : Keyword} (hKeyword : keyword ∈ keywords) :
    (ofFound keywords found).hashSum keyword.bytes
      ≤ keyword.length + (found.signature.sampledOffsets keyword.length).length * found.adjustments := by
  have hash_le := hash_le_of_assign h hKeyword
  rw [← hashSum_ofFound (assigned_of_assign h) hKeyword] at hash_le
  exact_mod_cast hash_le

/-- The greatest hash is that of a keyword. No keyword is longer than the longest, and none has more offsets
    within it than there are. -/
theorem maxHash_le_of_assign {found : Found} (valid : Keyword.Valid keywords)
    (h : assign keywords found.signature maxTries
      = .ok (.success found.values found.table found.adjustments)) :
    found.table.maxHash ≤ Keyword.longest keywords + found.signature.size * found.adjustments := by
  have perfect := perfect_ofFound (assigned_of_assign h) valid.nodup
  have greatest := max?_hashes_ofFound perfect valid.ne_nil
  obtain ⟨keyword, hKeyword, hash_eq⟩ := List.mem_map.1 (List.max?_eq_some_iff.1 greatest).1
  have length_le : keyword.length ≤ Keyword.longest keywords :=
    (List.max?_eq_some_iff.1 (Keyword.lengths_eq valid.ne_nil).2).2 _ (List.mem_map_of_mem hKeyword)
  have sampled_le := found.signature.length_sampledOffsets_le keyword.length
  calc found.table.maxHash
      = (ofFound keywords found).hashSum keyword.bytes := hash_eq.symm
    _ ≤ keyword.length + (found.signature.sampledOffsets keyword.length).length * found.adjustments :=
        hashSum_le_of_assign h hKeyword
    _ ≤ Keyword.longest keywords + found.signature.size * found.adjustments :=
        Nat.add_le_add length_le (Nat.mul_le_mul_right _ sampled_le)

/-- The greatest hash of a table that was built exceeds the longest word by as many times the number of
    adjustments as there are offsets, at most. There are fewer adjustments than tries, so the slots are no
    more than the tries allow for. -/
theorem size_of_build {table : Table} (built : build keywords maxTries = .ok table) :
    table.maxHash ≤ table.maxWordLength + table.signature.size * table.stats.adjustments
      ∧ table.stats.adjustments < maxTries
      ∧ table.slots.size ≤ table.maxWordLength + table.signature.size * (maxTries - 1) + 1 := by
  obtain ⟨valid, found, rfl, hAssign, _⟩ := build_eq_ok built
  have maxHash_le := maxHash_le_of_assign valid hAssign
  have adjustments_lt := adjustments_lt_of_assign hAssign
  have slots_size : (ofFound keywords found).slots.size = found.table.maxHash + 1 := by
    simp [ofFound]
  refine ⟨?_, adjustments_lt, ?_⟩
  · rw [maxHash_ofFound]
    exact maxHash_le
  · calc (ofFound keywords found).slots.size
        = found.table.maxHash + 1 := slots_size
      _ ≤ Keyword.longest keywords + found.signature.size * found.adjustments + 1 :=
          Nat.succ_le_succ maxHash_le
      _ ≤ Keyword.longest keywords + found.signature.size * (maxTries - 1) + 1 := by
          have := Nat.mul_le_mul_left found.signature.size (Nat.le_sub_one_of_lt adjustments_lt)
          omega

/-- Three words of two characters that take both of these to be told apart. -/
def doublingWords : List Keyword :=
  [{ text := "cc", payload := "A" }, { text := "cd", payload := "B" }, { text := "dd", payload := "C" }]

/-- The table of the three words. The last one has the character that was raised at both offsets. -/
def doublingTable : Table where
  keywords := doublingWords
  signature := { offsets := [0, 1], ne_nil := by decide, increasing := by decide }
  values :=
    { cells := ((Vector.replicate asciiCount unused).set 99 0 (by decide)).set 100 1 (by decide) }
  slots := #[none, none, some 0, some 1, some 2]
  minWordLength := 2
  maxWordLength := 2
  stats := { signaturesTried := 3, adjustments := 1 }

/-- With two tries for each signature the bounds are reached: one adjustment counts twice in a word. -/
theorem size_of_build_doubling :
    build doublingWords 2 = .ok doublingTable
      ∧ doublingTable.maxHash = 4 ∧ doublingTable.slots.size = 5
      ∧ doublingTable.maxHash ≤ 2 + 2 * 1 ∧ 1 < 2 ∧ doublingTable.slots.size ≤ 2 + 2 * (2 - 1) + 1 := by
  have built : build doublingWords 2 = .ok doublingTable := by decide +kernel
  obtain ⟨maxHash_le, adjustments_lt, slots_le⟩ := size_of_build built
  exact ⟨built, rfl, rfl, maxHash_le, adjustments_lt, slots_le⟩

end Table

end KeywordHash
