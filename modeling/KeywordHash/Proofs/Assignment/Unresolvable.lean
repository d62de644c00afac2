/-
Module: KeywordHash.Proofs.Assignment.Unresolvable
Layer: Proofs
Purpose: What it means that an attempt ends because no character can be raised. The two keywords that it
  names collide under the values at hand and have the same sampled characters, but not necessarily each
  of them as often. So they collide under all values if the characters are the same up to their order,
  and only then (`equal_hashes_iff_of_unresolvable`); two keywords that repeat different characters are
  given up although raising one character tells them apart (`unresolvable_doubledWords`).
Imports: KeywordHash.Proofs.Assignment, KeywordHash.Proofs.Values.Collision
Trusted boundary: none
Main exports: equal_hashes_iff_of_unresolvable, unresolvable_doubledWords
Open obligations: none
-/
import KeywordHash.Proofs.Assignment
import KeywordHash.Proofs.Values.Collision

namespace KeywordHash

/-- An attempt that ends without a character to raise was at values under which two samples collide. The
    induction is on the tries; each of them leads to other values. -/
theorem colliding_of_assignFrom {samples : List Sample} {occurrence : Occurrence}
    {maxTries tries adjustments keyword other : Nat} {values : AssociatedValues}
    (h : assignFrom samples occurrence maxTries tries values adjustments
      = .ok (.unresolvable keyword other)) :
    ∃ (searched : AssociatedValues) (later earlier : Sample),
      Colliding searched samples keyword other later earlier
        ∧ occurrence.candidates later.characters earlier.characters = [] := by
  induction tries generalizing values adjustments with
  | zero => cases h
  | succ tries ih =>
      rw [assignFrom] at h
      split at h
      · cases h
      · cases h
      · next index owner hHash =>
          split at h
          · next hCandidates =>
              cases h
              obtain ⟨later, earlier, colliding⟩ := colliding_of_hashAll hHash
              rw [charactersAt, charactersAt, colliding.later_eq, colliding.earlier_eq]
                at hCandidates
              exact ⟨values, later, earlier, colliding, hCandidates⟩
          · split at h
            · cases h
            · exact ih h

/-- Without a candidate the samples have the same characters. -/
theorem mem_iff_of_candidates_eq_nil {occurrence : Occurrence} {a b : List UInt8}
    (h : occurrence.candidates a b = []) (c : UInt8) : c ∈ a ↔ c ∈ b := by
  have notCandidate : ¬ (c ∈ a ∧ c ∉ b ∨ c ∈ b ∧ c ∉ a) := by
    rw [← @Occurrence.mem_candidates_iff occurrence, h]
    exact List.not_mem_nil
  tauto

/-- Samples that collide under some values have the same length if their characters are the same up to
    order. -/
theorem Colliding.length_eq {values : AssociatedValues} {samples : List Sample} {keyword owner : Nat}
    {later earlier : Sample} (colliding : Colliding values samples keyword owner later earlier)
    (perm : later.characters.Perm earlier.characters) : later.length = earlier.length := by
  have hash_eq := colliding.hash_eq
  rw [Sample.hash_eq_sum, Sample.hash_eq_sum, (perm.map values.get).sum_eq] at hash_eq
  omega

/-- If an attempt ends because no character tells two keywords apart, these have the same sampled
    characters. They collide under all values that are not negative if and only if the characters are
    the same up to order, which is so if neither keyword repeats one. -/
theorem equal_hashes_iff_of_unresolvable {keywords : List Keyword} {signature : Signature}
    {maxTries keyword other : Nat}
    (h : assign keywords signature maxTries = .ok (.unresolvable keyword other)) :
    ∃ later earlier, other < keyword ∧ keywords[keyword]? = some later
      ∧ keywords[other]? = some earlier
      ∧ (∀ c, c ∈ signature.realize later.bytes ↔ c ∈ signature.realize earlier.bytes)
      ∧ ((∀ values : AssociatedValues, values.InRange →
            (signature.sample later.bytes).hash values = (signature.sample earlier.bytes).hash values)
          ↔ (signature.realize later.bytes).Perm (signature.realize earlier.bytes))
      ∧ ((signature.realize later.bytes).Nodup → (signature.realize earlier.bytes).Nodup →
          ∀ values : AssociatedValues, values.InRange →
            (signature.sample later.bytes).hash values
              = (signature.sample earlier.bytes).hash values) := by
  simp only [assign] at h
  split at h
  · cases h
  · next occurrence hOccurrence =>
      obtain ⟨searched, first, second, colliding, hCandidates⟩ := colliding_of_assignFrom h
      have sample_at : ∀ {index : Nat} {sample : Sample},
          (signature.samples keywords)[index]? = some sample →
          ∃ found, keywords[index]? = some found ∧ signature.sample found.bytes = sample := by
        intro index sample hSample
        rw [Signature.samples, List.getElem?_map] at hSample
        exact Option.map_eq_some_iff.1 hSample
      obtain ⟨later, hLater, rfl⟩ := sample_at colliding.later_eq
      obtain ⟨earlier, hEarlier, rfl⟩ := sample_at colliding.earlier_eq
      have ascii : ∀ {index : Nat} {found : Keyword}, keywords[index]? = some found →
          ∀ c ∈ (signature.sample found.bytes).characters, c.toNat < asciiCount := by
        intro index found hFound c hc
        have member := List.mem_map_of_mem (f := fun keyword => signature.sample keyword.bytes)
          (List.mem_of_getElem? hFound)
        exact Occurrence.ascii_of_ofSamples hOccurrence member hc
      have equal_iff : (∀ values : AssociatedValues, values.InRange →
            (signature.sample later.bytes).hash values = (signature.sample earlier.bytes).hash values)
          ↔ (signature.realize later.bytes).Perm (signature.realize earlier.bytes) := by
        rw [Sample.hash_eq_iff_perm (ascii hLater) (ascii hEarlier)]
        exact ⟨And.right, fun perm => ⟨colliding.length_eq perm, perm⟩⟩
      have same := mem_iff_of_candidates_eq_nil hCandidates
      refine ⟨later, earlier, colliding.owner_lt, hLater, hEarlier, same, equal_iff, ?_⟩
      intro laterNodup earlierNodup
      exact equal_iff.2 ((List.perm_ext_iff_of_nodup laterNodup earlierNodup).2 same)

/-- Two words of the same characters, each of which repeats another one. -/
def doubledWords : List Keyword :=
  [{ text := "aab", payload := "Aab" }, { text := "abb", payload := "Abb" }]

/-- The first three characters of a word. -/
def firstThree : Signature :=
  { offsets := [0, 1, 2], ne_nil := by decide, increasing := by decide }

/-- Two words of the same characters in another order have one hash under all values. -/
theorem equal_hashes_of_swapped :
    assign [{ text := "ab", payload := "Ab" }, { text := "ba", payload := "Ba" }] firstThree 1
        = .ok (.unresolvable 1 0)
      ∧ ∀ values : AssociatedValues, values.InRange →
        (firstThree.sample (Text.bytes "ba")).hash values
          = (firstThree.sample (Text.bytes "ab")).hash values := by
  have unresolvable :
      assign [{ text := "ab", payload := "Ab" }, { text := "ba", payload := "Ba" }] firstThree 1
        = .ok (.unresolvable 1 0) := by decide +kernel
  obtain ⟨later, earlier, _, hLater, hEarlier, _, equal_iff, _⟩ :=
    equal_hashes_iff_of_unresolvable unresolvable
  cases hLater
  cases hEarlier
  exact ⟨unresolvable, equal_iff.2 (by decide +kernel)⟩

/-- The attempt for the doubled words ends because they have the same characters, although raising one of
    these tells them apart. -/
theorem unresolvable_doubledWords :
    (∀ keyword ∈ doubledWords, keyword.isAscii)
      ∧ assign doubledWords firstThree 1 = .ok (.unresolvable 1 0)
      ∧ ∃ values : AssociatedValues, values.InRange
        ∧ (firstThree.sample (Text.bytes "abb")).hash values
          ≠ (firstThree.sample (Text.bytes "aab")).hash values := by
  refine ⟨by decide +kernel, by decide +kernel, ?_⟩
  obtain ⟨values, hBump⟩ : ∃ values, (AssociatedValues.constant 0).bump 97 = .ok values := ⟨_, rfl⟩
  refine ⟨values, AssociatedValues.inRange_bump AssociatedValues.inRange_constant hBump, ?_⟩
  rw [Sample.hash_bump hBump, Sample.hash_bump hBump]
  decide +kernel

end KeywordHash
