/-
Module: KeywordHash.Proofs.Signature.Count
Layer: Proofs
Purpose: How many candidates there are within bounds. An increasing list of offsets is told by the set of
  its offsets. The sets of one size whose least offset exists in the shortest keyword are all sets of
  offsets of the longest keyword but for those whose offsets all lie behind the shortest one, so their
  number is a difference of two binomial coefficients.
Imports: KeywordHash.Proofs.Signature.Enumeration, Mathlib.Algebra.BigOperators.Group.Finset.Basic,
  Mathlib.Data.Finset.Powerset, Mathlib.Data.Finset.Sort, Mathlib.Order.Interval.Finset.Nat
Trusted boundary: none
Main exports: Bounds.offsetSets, Bounds.candidateCount, Bounds.admits_iff_mem_offsetSets,
  Enumeration.mem_signatures_start, Enumeration.length_signatures_start
Open obligations: none
-/
import KeywordHash.Proofs.Signature.Enumeration
import Mathlib.Algebra.BigOperators.Group.Finset.Basic
import Mathlib.Data.Finset.Powerset
import Mathlib.Data.Finset.Sort
import Mathlib.Order.Interval.Finset.Nat

namespace KeywordHash

/-! ### Sets of offsets -/

namespace Bounds

variable {bounds : Bounds}

/-- The sets of the given size that consist of offsets of the longest keyword, not all of them behind the
    shortest. -/
def offsetSets (bounds : Bounds) (size : Nat) : Finset (Finset Nat) :=
  (Finset.range bounds.longest).powersetCard size
    \ (Finset.Ico bounds.shortest bounds.longest).powersetCard size

/-- The number of candidates within the bounds. -/
def candidateCount (bounds : Bounds) : Nat :=
  ∑ size ∈ Finset.Icc 1 bounds.maxSize,
    (bounds.longest.choose size - (bounds.longest - bounds.shortest).choose size)

theorem card_offsetSets (bounds : Bounds) (size : Nat) :
    (bounds.offsetSets size).card
      = bounds.longest.choose size - (bounds.longest - bounds.shortest).choose size := by
  have behind_subset : Finset.Ico bounds.shortest bounds.longest ⊆ Finset.range bounds.longest := by
    intro o ho
    exact Finset.mem_range.2 (Finset.mem_Ico.1 ho).2
  rw [offsetSets, Finset.card_sdiff_of_subset (Finset.powersetCard_mono behind_subset),
    Finset.card_powersetCard, Finset.card_powersetCard, Finset.card_range, Nat.card_Ico]

theorem card_of_mem_offsetSets {size : Nat} {offsets : Finset Nat}
    (h : offsets ∈ bounds.offsetSets size) : offsets.card = size :=
  (Finset.mem_powersetCard.1 (Finset.mem_sdiff.1 h).1).2

/-- The first offset of an increasing list is below a limit if any of its offsets is. -/
theorem head_lt_iff {limit : Nat} {offsets : List Nat} (ne_nil : offsets ≠ [])
    (increasing : offsets.Pairwise (· < ·)) :
    (∀ o ∈ offsets.head?, o < limit) ↔ ∃ o ∈ offsets, o < limit := by
  obtain ⟨first, rest, rfl⟩ := List.exists_cons_of_ne_nil ne_nil
  constructor
  · intro head_lt
    exact ⟨first, List.mem_cons_self, head_lt first rfl⟩
  · rintro ⟨o, ho, o_lt⟩ _ ⟨⟩
    rcases List.mem_cons.1 ho with rfl | later
    · exact o_lt
    · exact Nat.lt_trans ((List.pairwise_cons.1 increasing).1 o later) o_lt

/-- An increasing list is a candidate if it has a size of candidates and its offsets are a set for this
    size. -/
theorem admits_iff_mem_offsetSets {offsets : List Nat} (increasing : offsets.Pairwise (· < ·)) :
    bounds.Admits offsets ↔ offsets.length ∈ Finset.Icc 1 bounds.maxSize
      ∧ offsets.toFinset ∈ bounds.offsetSets offsets.length := by
  have card_eq : offsets.toFinset.card = offsets.length :=
    List.toFinset_card_of_nodup increasing.nodup
  have behind_iff : offsets.toFinset ⊆ Finset.Ico bounds.shortest bounds.longest ↔
      ∀ o ∈ offsets, bounds.shortest ≤ o ∧ o < bounds.longest := by
    simp [Finset.subset_iff]
  have within_iff : offsets.toFinset ⊆ Finset.range bounds.longest ↔
      ∀ o ∈ offsets, o < bounds.longest := by
    simp [Finset.subset_iff]
  rw [offsetSets, Finset.mem_sdiff, Finset.mem_powersetCard, Finset.mem_powersetCard, card_eq,
    behind_iff, within_iff, Finset.mem_Icc, Nat.one_le_iff_ne_zero, Ne, List.length_eq_zero_iff]
  constructor
  · intro admitted
    obtain ⟨o, ho, o_lt⟩ := (head_lt_iff admitted.ne_nil increasing).1 admitted.head_lt
    exact ⟨⟨admitted.ne_nil, admitted.length_le⟩, ⟨admitted.all_lt, rfl⟩,
      fun behind => Nat.not_lt.2 (behind.1 o ho).1 o_lt⟩
  · rintro ⟨⟨ne_nil, length_le⟩, ⟨all_lt, _⟩, notBehind⟩
    refine ⟨ne_nil, increasing, (head_lt_iff ne_nil increasing).2 ?_, all_lt, length_le⟩
    by_contra none_lt
    refine notBehind ⟨fun o ho => ⟨?_, all_lt o ho⟩, rfl⟩
    exact Nat.not_lt.1 fun o_lt => none_lt ⟨o, ho, o_lt⟩

end Bounds

/-! ### The candidates of an enumeration -/

namespace Enumeration

variable {bounds : Bounds}

/-- The signatures of an enumeration from its start on are those of the candidates. -/
theorem mem_signatures_start {offsets : List Nat} :
    offsets ∈ (start bounds).signatures.map (·.offsets) ↔ bounds.Admits offsets := by
  rw [signatures, start, Candidate.mem_onwards]
  exact ⟨And.left, fun admitted => ⟨admitted, Bounds.first_least admitted⟩⟩

theorem nodup_offsets_start (bounds : Bounds) :
    ((start bounds).signatures.map (·.offsets)).Nodup := by
  apply (Candidate.first bounds).pairwise_onwards.imp
  rintro a b less rfl
  exact asymm less less

/-- The sets of offsets that the enumeration goes through are those of all sizes of candidates. -/
theorem toFinset_offsets_start :
    ((start bounds).signatures.map (·.offsets.toFinset)).toFinset
      = (Finset.Icc 1 bounds.maxSize).biUnion bounds.offsetSets := by
  ext offsets
  rw [List.mem_toFinset, List.mem_map, Finset.mem_biUnion]
  constructor
  · rintro ⟨signature, hSignature, rfl⟩
    have admitted := mem_signatures_start.1 (List.mem_map_of_mem hSignature)
    exact ⟨_, (Bounds.admits_iff_mem_offsetSets signature.increasing).1 admitted⟩
  · rintro ⟨size, hSize, hOffsets⟩
    have increasing : offsets.sort.Pairwise (· < ·) := offsets.sortedLT_sort.pairwise
    have length_eq : offsets.sort.length = size := by
      rw [Finset.length_sort, Bounds.card_of_mem_offsetSets hOffsets]
    have admitted : bounds.Admits offsets.sort := by
      rw [Bounds.admits_iff_mem_offsetSets increasing, length_eq, Finset.sort_toFinset]
      exact ⟨hSize, hOffsets⟩
    obtain ⟨signature, hSignature, offsets_eq⟩ := List.mem_map.1 (mem_signatures_start.2 admitted)
    exact ⟨signature, hSignature, by rw [offsets_eq, Finset.sort_toFinset]⟩

/-- No two signatures have one set of offsets, as an increasing list is told by its members. -/
theorem nodup_toFinset_start : ((start bounds).signatures.map (·.offsets.toFinset)).Nodup := by
  have nodup := List.Nodup.of_map _ (nodup_offsets_start bounds)
  apply List.Nodup.map_on _ nodup
  intro a ha b hb same
  apply List.inj_on_of_nodup_map (nodup_offsets_start bounds) ha hb
  apply a.increasing.eq_of_mem_iff b.increasing
  intro o
  rw [← List.mem_toFinset, same, List.mem_toFinset]

/-- The enumeration goes through as many signatures as there are candidates. Sets of different sizes are
    different, so the sizes can be counted one by one. -/
theorem length_signatures_start : (start bounds).signatures.length = bounds.candidateCount := by
  have disjoint : ∀ size ∈ Finset.Icc 1 bounds.maxSize, ∀ other ∈ Finset.Icc 1 bounds.maxSize,
      size ≠ other → Disjoint (bounds.offsetSets size) (bounds.offsetSets other) := by
    intro size _ other _ differ
    rw [Finset.disjoint_left]
    intro offsets hSize hOther
    rw [← Bounds.card_of_mem_offsetSets hSize, ← Bounds.card_of_mem_offsetSets hOther] at differ
    exact differ rfl
  calc (start bounds).signatures.length
      = ((start bounds).signatures.map (·.offsets.toFinset)).toFinset.card := by
        rw [List.toFinset_card_of_nodup nodup_toFinset_start, List.length_map]
    _ = ∑ size ∈ Finset.Icc 1 bounds.maxSize, (bounds.offsetSets size).card := by
        rw [toFinset_offsets_start, Finset.card_biUnion disjoint]
    _ = bounds.candidateCount := by
        simp only [Bounds.card_offsetSets, Bounds.candidateCount]

end Enumeration

end KeywordHash
