/-
Module: KeywordHash.Proofs.Signature.Sample
Layer: Proofs
Purpose: What a signature samples of a word. As offsets increase, no character of the word is sampled
  twice, so a sample is no longer than the word.
Imports: KeywordHash.Values.Occurrence, Mathlib.Data.List.Perm.Subperm
Trusted boundary: none
Main exports: Signature.mem_realize_iff, Signature.length_realize, Signature.length_realize_le
Open obligations: none
-/
import KeywordHash.Values.Occurrence
import Mathlib.Data.List.Perm.Subperm

namespace KeywordHash.Signature

/-- The sampled characters are those that stand at an offset. -/
theorem mem_realize_iff {signature : Signature} {word : List UInt8} {c : UInt8} :
    c ∈ signature.realize word ↔ ∃ offset ∈ signature.offsets, word[offset]? = some c :=
  List.mem_filterMap

/-- One character is sampled for each offset within the word. -/
theorem length_realize (signature : Signature) (word : List UInt8) :
    (signature.realize word).length = (signature.sampledOffsets word.length).length := by
  rw [realize, sampledOffsets, List.length_filterMap_eq_countP, List.countP_eq_length_filter]
  apply congrArg List.length
  apply List.filter_congr
  intro offset _
  rw [Bool.eq_iff_iff, isSome_getElem?, decide_eq_true_iff]

/-- No more characters are sampled than there are offsets. -/
theorem length_sampledOffsets_le (signature : Signature) (length : Nat) :
    (signature.sampledOffsets length).length ≤ signature.size :=
  List.length_filter_le _ _

/-- A sample is no longer than the word. -/
theorem length_realize_le (signature : Signature) (word : List UInt8) :
    (signature.realize word).length ≤ word.length := by
  have distinct : signature.offsets.Nodup := signature.increasing.imp Nat.ne_of_lt
  have inside : signature.offsets.filter (fun offset => word[offset]?.isSome)
      ⊆ List.range word.length := by
    intro offset hOffset
    rw [List.mem_range]
    simpa using (List.mem_filter.1 hOffset).2
  calc (signature.realize word).length
      = (signature.offsets.filter fun offset => word[offset]?.isSome).length := by
        rw [realize, List.length_filterMap_eq_countP, List.countP_eq_length_filter]
    _ ≤ (List.range word.length).length :=
        (List.subperm_of_subset (distinct.filter _) inside).length_le
    _ = word.length := List.length_range

end KeywordHash.Signature
