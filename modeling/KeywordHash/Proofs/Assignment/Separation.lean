/-
Module: KeywordHash.Proofs.Assignment.Separation
Layer: Proofs
Purpose: What one try of an attempt finds out, and what the adjustment after it is worth. Hashing tells the
  hashes apart, or reports the first repetition among them. Raising any candidate for the two keywords then
  puts the one that samples the character ahead of the other (`Ahead`), by as much as it samples it, and
  leaves all keywords alone that do not sample it (`hashing_and_adjustment`).
Imports: KeywordHash.Proofs.Assignment, KeywordHash.Proofs.Values.Collision
Trusted boundary: none
Main exports: Signature.timesSampled, hash_bump_sample, Ahead, Ahead.hash_ne,
  exists_ahead_of_candidate, hashing_and_adjustment
Open obligations: none
-/
import KeywordHash.Proofs.Assignment
import KeywordHash.Proofs.Values.Collision

namespace KeywordHash

/-! ### Adjustments -/

/-- The number of offsets at which the word has the character. -/
def Signature.timesSampled (signature : Signature) (word : List UInt8) (c : UInt8) : Nat :=
  signature.offsets.countP fun offset => word[offset]? = some c

theorem Signature.count_realize (signature : Signature) (word : List UInt8) (c : UInt8) :
    (signature.realize word).count c = signature.timesSampled word c := by
  simp [realize, timesSampled, List.count_filterMap, beq_eq_decide]

section

variable {signature : Signature} {values bumped : AssociatedValues} {c : UInt8}

/-- Raising a character adds to a hash the number of offsets at which the word has it. -/
theorem hash_bump_sample (h : values.bump c = .ok bumped) (word : List UInt8) :
    (signature.sample word).hash bumped
      = (signature.sample word).hash values + signature.timesSampled word c := by
  rw [Sample.hash_bump h, ← signature.count_realize, Signature.sample]

/-- Raising a character changes the hash of no word that does not have it at an offset. -/
theorem hash_bump_of_absent (h : values.bump c = .ok bumped) {word : List UInt8}
    (absent : c ∉ signature.realize word) :
    (signature.sample word).hash bumped = (signature.sample word).hash values := by
  rw [hash_bump_sample h, ← signature.count_realize, List.count_eq_zero.2 absent]
  simp

/-- Only the first of two keywords samples the character, and its hash exceeds that of the second by the
    number of offsets at which it does so. -/
structure Ahead (signature : Signature) (values : AssociatedValues) (c : UInt8)
    (first second : Keyword) : Prop where
  sampled : c ∈ signature.realize first.bytes
  absent : c ∉ signature.realize second.bytes
  hash_eq : (signature.sample first.bytes).hash values
    = (signature.sample second.bytes).hash values + signature.timesSampled first.bytes c

theorem Ahead.hash_ne {first second : Keyword} (ahead : Ahead signature values c first second) :
    (signature.sample first.bytes).hash values ≠ (signature.sample second.bytes).hash values := by
  have positive : 0 < signature.timesSampled first.bytes c := by
    rw [← signature.count_realize]
    exact List.count_pos_iff.2 ahead.sampled
  have hash_eq := ahead.hash_eq
  omega

/-- Of two keywords with one hash, only the first samples a character that can be raised. Raising it puts this
    keyword ahead. -/
theorem exists_ahead {first second : Keyword}
    (same : (signature.sample first.bytes).hash values = (signature.sample second.bytes).hash values)
    (ascii : ∀ c ∈ signature.realize first.bytes, c.toNat < asciiCount)
    (room : ∀ c : UInt8, c.toNat < asciiCount → values.get c < maxValue)
    (sampled : c ∈ signature.realize first.bytes) (absent : c ∉ signature.realize second.bytes) :
    ∃ bumped, values.bump c = .ok bumped ∧ Ahead signature bumped c first second := by
  have isAscii := ascii c sampled
  obtain ⟨bumped, hBump⟩ := AssociatedValues.exists_bump isAscii (room c isAscii)
  refine ⟨bumped, hBump, sampled, absent, ?_⟩
  rw [hash_bump_of_absent hBump absent, hash_bump_sample hBump, same]

/-- A candidate for two keywords with one hash puts one of them ahead when it is raised. -/
theorem exists_ahead_of_candidate {occurrence : Occurrence} {later earlier : Keyword}
    (same : (signature.sample later.bytes).hash values = (signature.sample earlier.bytes).hash values)
    (laterAscii : ∀ c ∈ signature.realize later.bytes, c.toNat < asciiCount)
    (earlierAscii : ∀ c ∈ signature.realize earlier.bytes, c.toNat < asciiCount)
    (room : ∀ c : UInt8, c.toNat < asciiCount → values.get c < maxValue)
    (candidate : c ∈ occurrence.candidates (signature.realize later.bytes)
      (signature.realize earlier.bytes)) :
    ∃ bumped, values.bump c = .ok bumped
      ∧ (Ahead signature bumped c later earlier ∨ Ahead signature bumped c earlier later) := by
  rcases Occurrence.mem_candidates_iff.1 candidate with ⟨sampled, absent⟩ | ⟨sampled, absent⟩
  · obtain ⟨bumped, hBump, ahead⟩ := exists_ahead same laterAscii room sampled absent
    exact ⟨bumped, hBump, Or.inl ahead⟩
  · obtain ⟨bumped, hBump, ahead⟩ := exists_ahead same.symm earlierAscii room sampled absent
    exact ⟨bumped, hBump, Or.inr ahead⟩

end

/-! ### One try -/

/-- A collision is one of two keywords of the list. -/
theorem exists_keywords_of_hashAll {keywords : List Keyword} {signature : Signature}
    {values : AssociatedValues} {keyword owner : Nat}
    (h : hashAll values (signature.samples keywords) = .ok (.collision keyword owner)) :
    ∃ later earlier, keywords[keyword]? = some later ∧ keywords[owner]? = some earlier
      ∧ (signature.sample later.bytes).hash values = (signature.sample earlier.bytes).hash values := by
  obtain ⟨first, second, colliding⟩ := colliding_of_hashAll h
  obtain ⟨later, hLater, rfl⟩ := getElem?_samples_eq_some_iff.1 colliding.later_eq
  obtain ⟨earlier, hEarlier, rfl⟩ := getElem?_samples_eq_some_iff.1 colliding.earlier_eq
  exact ⟨later, earlier, hLater, hEarlier, colliding.hash_eq⟩

/-- A keyword list is hashed under values for which no hash is negative. It comes to a table if and only if
    the hashes are distinct, and this table tells which keyword has a hash; otherwise it comes to the first
    repetition among the hashes. If only ASCII characters are sampled, and their values are neither negative
    nor the greatest one, any candidate for the two keywords of a collision can be raised. Their hashes then
    differ by the number of offsets at which one of them, and only one, has the character, and all keywords
    that do not have it at an offset keep their hashes. -/
theorem hashing_and_adjustment {keywords : List Keyword} {signature : Signature}
    {values : AssociatedValues}
    (nonneg : ∀ keyword ∈ keywords, 0 ≤ (signature.sample keyword.bytes).hash values) :
    ((∃ table, hashAll values (signature.samples keywords) = .ok (.distinct table))
        ↔ (keywords.map fun keyword => (signature.sample keyword.bytes).hash values).Nodup)
      ∧ (∀ table, hashAll values (signature.samples keywords) = .ok (.distinct table) →
        ∀ hash index, table.owner? hash = some index ↔ ∃ keyword, keywords[index]? = some keyword
          ∧ (signature.sample keyword.bytes).hash values = (hash : Int))
      ∧ (¬ (keywords.map fun keyword => (signature.sample keyword.bytes).hash values).Nodup →
        ∃ keyword owner,
          hashAll values (signature.samples keywords) = .ok (.collision keyword owner)
            ∧ FirstRepetition
              (keywords.map fun keyword => (signature.sample keyword.bytes).hash values) keyword owner)
      ∧ ((∀ keyword ∈ keywords, ∀ c ∈ signature.realize keyword.bytes, c.toNat < asciiCount) →
        (∀ c : UInt8, c.toNat < asciiCount → 0 ≤ values.get c ∧ values.get c < maxValue) →
        ∀ keyword owner,
          hashAll values (signature.samples keywords) = .ok (.collision keyword owner) →
          ∃ later earlier, keywords[keyword]? = some later ∧ keywords[owner]? = some earlier
            ∧ ∀ (occurrence : Occurrence) (c : UInt8),
              c ∈ occurrence.candidates (signature.realize later.bytes)
                (signature.realize earlier.bytes) →
              ∃ bumped, values.bump c = .ok bumped
                ∧ (signature.sample later.bytes).hash bumped
                  ≠ (signature.sample earlier.bytes).hash bumped
                ∧ (Ahead signature bumped c later earlier ∨ Ahead signature bumped c earlier later)
                ∧ ∀ other ∈ keywords, c ∉ signature.realize other.bytes →
                  (signature.sample other.bytes).hash bumped
                    = (signature.sample other.bytes).hash values) := by
  have nonneg_samples : ∀ sample ∈ signature.samples keywords, 0 ≤ sample.hash values :=
    List.forall_mem_map.2 nonneg
  have outcome := hashAll_outcome nonneg_samples
  rw [map_hash_samples] at outcome
  refine ⟨⟨?_, fun nodup => ?_⟩, fun table h => ?_, fun repeated => ?_, ?_⟩
  · rintro ⟨table, h⟩
    rw [← map_hash_samples]
    exact (lists_of_hashAll h).nodup_hashes
  · obtain ⟨_, distinct⟩ | ⟨_, _, _, first⟩ := outcome
    · exact distinct
    · exact absurd nodup first.not_nodup
  · exact (lists_of_hashAll h).owner_iff_keyword
  · obtain ⟨nodup, _⟩ | collision := outcome
    · exact absurd nodup repeated
    · exact collision
  · intro ascii range keyword owner h
    obtain ⟨later, earlier, hLater, hEarlier, same⟩ := exists_keywords_of_hashAll h
    refine ⟨later, earlier, hLater, hEarlier, fun occurrence c candidate => ?_⟩
    obtain ⟨bumped, hBump, ahead⟩ := exists_ahead_of_candidate same
      (ascii later (List.mem_of_getElem? hLater)) (ascii earlier (List.mem_of_getElem? hEarlier))
      (fun c isAscii => (range c isAscii).2) candidate
    refine ⟨bumped, hBump, ?_, ahead, fun other _ absent => hash_bump_of_absent hBump absent⟩
    exact ahead.elim Ahead.hash_ne fun ahead => ahead.hash_ne.symm

/-- Words of which the second has the character `a` at two offsets, the last at one, and the others at
    none. -/
def unevenWords : List Keyword :=
  [{ text := "if", payload := "If" }, { text := "aab", payload := "Aab" },
    { text := "cdb", payload := "Cdb" }, { text := "add", payload := "Add" }]

/-- The first two characters of a word, and the fifth if it has one. -/
def firstTwoAndFifth : Signature :=
  { offsets := [0, 1, 4], ne_nil := by decide, increasing := by decide }

/-- Under zeros the three longer words have one hash, of which the first two are reported. Raising `a` sets
    them apart by two, and leaves the short word alone. -/
theorem hashing_and_adjustment_uneven :
    (∀ keyword ∈ unevenWords, 0 ≤ (firstTwoAndFifth.sample keyword.bytes).hash (.constant 0))
      ∧ (∀ keyword ∈ unevenWords, ∀ c ∈ firstTwoAndFifth.realize keyword.bytes, c.toNat < asciiCount)
      ∧ (∀ c : UInt8, c.toNat < asciiCount →
        0 ≤ (AssociatedValues.constant 0).get c ∧ (AssociatedValues.constant 0).get c < maxValue)
      ∧ hashAll (.constant 0) (firstTwoAndFifth.samples unevenWords) = .ok (.collision 2 1)
      ∧ FirstRepetition (unevenWords.map fun keyword =>
        (firstTwoAndFifth.sample keyword.bytes).hash (.constant 0)) 2 1
      ∧ ∃ bumped, (AssociatedValues.constant 0).bump 97 = .ok bumped
        ∧ (firstTwoAndFifth.sample (Text.bytes "aab")).hash bumped
          = (firstTwoAndFifth.sample (Text.bytes "cdb")).hash bumped + 2
        ∧ (firstTwoAndFifth.sample (Text.bytes "if")).hash bumped = 2 := by
  have nonneg : ∀ keyword ∈ unevenWords,
      0 ≤ (firstTwoAndFifth.sample keyword.bytes).hash (.constant 0) := by decide +kernel
  have ascii : ∀ keyword ∈ unevenWords, ∀ c ∈ firstTwoAndFifth.realize keyword.bytes,
      c.toNat < asciiCount := by decide +kernel
  have range : ∀ c : UInt8, c.toNat < asciiCount →
      0 ≤ (AssociatedValues.constant 0).get c ∧ (AssociatedValues.constant 0).get c < maxValue := by
    intro c isAscii
    rw [AssociatedValues.get_constant 0 isAscii]
    decide
  have computed : hashAll (.constant 0) (firstTwoAndFifth.samples unevenWords)
      = .ok (.collision 2 1) := by decide +kernel
  have repeated : ¬ (unevenWords.map fun keyword =>
      (firstTwoAndFifth.sample keyword.bytes).hash (.constant 0)).Nodup := by decide +kernel
  obtain ⟨_, _, collision, adjustment⟩ := hashing_and_adjustment nonneg
  obtain ⟨keyword, owner, h, first⟩ := collision repeated
  cases h.symm.trans computed
  obtain ⟨later, earlier, hLater, hEarlier, raised⟩ := adjustment ascii range 2 1 computed
  cases hLater
  cases hEarlier
  obtain ⟨bumped, hBump, _, ahead, others⟩ := raised .zero 97 (by decide +kernel)
  refine ⟨nonneg, ascii, range, computed, first, bumped, hBump, ?_, ?_⟩
  · rcases ahead with ahead | ahead
    · exact absurd ahead.sampled (by decide +kernel)
    · exact ahead.hash_eq
  · have unchanged := others { text := "if", payload := "If" } (by decide) (by decide +kernel)
    exact unchanged.trans (by decide +kernel)

end KeywordHash
