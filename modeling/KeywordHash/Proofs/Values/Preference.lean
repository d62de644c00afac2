/-
Module: KeywordHash.Proofs.Values.Preference
Layer: Proofs
Purpose: In which order characters are offered for raising (`candidates_by_preference`). The rank puts the
  number of occurrences before the code, because a code weighs less than one occurrence. So different
  characters never have one rank, and a list that is sorted by rank is determined by the characters in it:
  neither the order in which they are met nor the way of sorting matters. The ranks are machine words.
Imports: KeywordHash.Proofs.Values.Adjustment, KeywordHash.Text.Numeral
Trusted boundary: none
Main exports: Occurrence.InOneOf, Occurrence.Preferred, Occurrence.rank_lt_rank_iff,
  Occurrence.rank_injective, Occurrence.rank_lt_wordLimit, Occurrence.eq_candidates_of_sorted,
  Occurrence.candidates_by_preference
Open obligations: none
-/
import KeywordHash.Proofs.Values.Adjustment
import KeywordHash.Text.Numeral

namespace KeywordHash.Occurrence

/-- The character stands in one of two samples and not in the other. -/
def InOneOf (a b : List UInt8) (c : UInt8) : Prop :=
  c ∈ a ∧ c ∉ b ∨ c ∈ b ∧ c ∉ a

/-- The first character occurs less than the second, or it occurs as often and has the smaller code. -/
def Preferred (occurrence : Occurrence) (c d : UInt8) : Prop :=
  occurrence.get c < occurrence.get d ∨ occurrence.get c = occurrence.get d ∧ c.toNat < d.toNat

section

variable {occurrence : Occurrence} {a b list : List UInt8} {c d : UInt8}

/-! ### Ranks -/

/-- Ranks are compared by occurrences first, and then by codes. -/
theorem rank_lt_rank_iff : occurrence.rank c < occurrence.rank d ↔ occurrence.Preferred c d := by
  have code_c := c.toNat_lt
  have code_d := d.toNat_lt
  simp only [rank, weight, Preferred]
  omega

/-- Different characters have different ranks. -/
theorem rank_injective (same : occurrence.rank c = occurrence.rank d) : c = d := by
  have code_c := c.toNat_lt
  have code_d := d.toNat_lt
  simp only [rank, weight] at same
  apply UInt8.toNat_inj.1
  omega

/-- Whatever a counter holds, the rank is a machine word. -/
theorem rank_lt_wordLimit (counted : occurrence.get c < counterLimit) :
    occurrence.rank c < wordLimit := by
  have code_c := c.toNat_lt
  simp only [counterLimit, rank, weight, wordLimit] at counted ⊢
  omega

/-! ### Lists in the order of preference -/

/-- Putting a character into a sorted list keeps the list sorted. The character stops in front of the first
    one that it is preferred to, or is there already. -/
theorem pairwise_insertByRank (sorted : list.Pairwise (occurrence.rank · < occurrence.rank ·)) :
    (occurrence.insertByRank c list).Pairwise (occurrence.rank · < occurrence.rank ·) := by
  induction list with
  | nil => simp [insertByRank]
  | cons d rest ih =>
      obtain ⟨first, others⟩ := List.pairwise_cons.1 sorted
      rw [insertByRank]
      split
      · next before =>
          apply List.pairwise_cons.2 ⟨_, sorted⟩
          intro e member
          rcases List.mem_cons.1 member with rfl | inRest
          · exact before
          · exact Nat.lt_trans before (first e inRest)
      · split
        · exact sorted
        · next notBefore differs =>
            have behind : occurrence.rank d < occurrence.rank c :=
              Nat.lt_of_le_of_ne (Nat.not_lt.1 notBefore) fun same => differs (rank_injective same).symm
            apply List.pairwise_cons.2 ⟨_, ih others⟩
            intro e member
            rcases mem_insertByRank.1 member with rfl | inRest
            · exact behind
            · exact first e inRest

theorem pairwise_candidates :
    (occurrence.candidates a b).Pairwise (occurrence.rank · < occurrence.rank ·) := by
  rw [candidates]
  generalize a.filter _ ++ b.filter _ = onlyInOne
  induction onlyInOne with
  | nil => exact .nil
  | cons c rest ih => exact pairwise_insertByRank ih

theorem nodup_candidates : (occurrence.candidates a b).Nodup :=
  pairwise_candidates.imp fun before same => Nat.ne_of_lt before (congrArg occurrence.rank same)

/-- A list without repetitions that is sorted by rank is the list of the candidates if it has the same
    characters, because no two of them tie. -/
theorem eq_candidates_of_sorted (nodup : list.Nodup) (members : ∀ c, c ∈ list ↔ InOneOf a b c)
    (sorted : list.Pairwise (occurrence.rank · ≤ occurrence.rank ·)) :
    list = occurrence.candidates a b := by
  have perm : list.Perm (occurrence.candidates a b) := by
    apply (List.perm_ext_iff_of_nodup nodup nodup_candidates).2
    intro c
    exact (members c).trans mem_candidates_iff.symm
  apply List.Perm.eq_of_pairwise _ sorted (pairwise_candidates.imp Nat.le_of_lt) perm
  intro c d _ _ le ge
  exact rank_injective (Nat.le_antisymm le ge)

/-- The candidates depend on which characters are in exactly one of the samples, and on nothing else. -/
theorem candidates_congr {a' b' : List UInt8} (same : ∀ c, InOneOf a' b' c ↔ InOneOf a b c) :
    occurrence.candidates a' b' = occurrence.candidates a b := by
  apply eq_candidates_of_sorted nodup_candidates _ (pairwise_candidates.imp Nat.le_of_lt)
  intro c
  exact mem_candidates_iff.trans (same c)

end

/-- The candidates are the characters in exactly one of the samples, each of them once, in the order of
    occurrences and then of codes. No two characters tie, and as long as the counters are those of a machine
    no rank is past a machine word. However the characters in exactly one of the samples are listed, and
    however the list is sorted by rank, the candidates are what comes of it. So they depend neither on the
    order nor on the multiplicity of the characters in a sample, nor on which of the samples is the first. -/
theorem candidates_by_preference (occurrence : Occurrence) (a b : List UInt8) :
    (∀ c, c ∈ occurrence.candidates a b ↔ InOneOf a b c)
      ∧ (occurrence.candidates a b).Nodup
      ∧ (occurrence.candidates a b).Pairwise occurrence.Preferred
      ∧ (∀ c d, occurrence.rank c = occurrence.rank d → c = d)
      ∧ (∀ c, occurrence.get c < counterLimit → occurrence.rank c < wordLimit)
      ∧ (∀ listed sorted : List UInt8, listed.Nodup → (∀ c, c ∈ listed ↔ InOneOf a b c) →
        sorted.Perm listed → sorted.Pairwise (occurrence.rank · ≤ occurrence.rank ·) →
        sorted = occurrence.candidates a b)
      ∧ (∀ a' b' : List UInt8, (∀ c, c ∈ a' ↔ c ∈ a) → (∀ c, c ∈ b' ↔ c ∈ b) →
        occurrence.candidates a' b' = occurrence.candidates a b)
      ∧ occurrence.candidates b a = occurrence.candidates a b := by
  refine ⟨fun c => mem_candidates_iff, nodup_candidates, ?_, fun c d => rank_injective,
    fun c => rank_lt_wordLimit, ?_, ?_, ?_⟩
  · exact pairwise_candidates.imp rank_lt_rank_iff.1
  · intro listed sorted nodup members perm byRank
    apply eq_candidates_of_sorted (perm.nodup_iff.2 nodup) _ byRank
    intro c
    exact perm.mem_iff.trans (members c)
  · intro a' b' same_a same_b
    apply candidates_congr
    intro c
    simp only [InOneOf, same_a c, same_b c]
  · apply candidates_congr
    intro c
    exact Or.comm

/-- How often each character stands in the pairs `ab`, `cb` and `cd`. -/
def pairsOccurrence : Occurrence where
  counts :=
    Vector.replicate asciiCount 0 |>.setIfInBounds 97 1 |>.setIfInBounds 98 2
      |>.setIfInBounds 99 2 |>.setIfInBounds 100 1

/-- The characters in exactly one of two samples, in an order in which they may be met. -/
def pairsListed : List UInt8 := [100, 233, 97, 99, 98]

/-- Five characters are in one of two samples only, and one of them is past ASCII. They are sorted in the
    same way in whatever order they are listed, and however often they stand in the samples. -/
theorem candidates_of_pairs :
    pairsListed.Nodup ∧ (∀ c, c ∈ pairsListed ↔ InOneOf [98, 97, 98, 233] [100, 99] c)
      ∧ List.Perm [233, 97, 100, 98, 99] pairsListed
      ∧ List.Pairwise (pairsOccurrence.rank · ≤ pairsOccurrence.rank ·) [233, 97, 100, 98, 99]
      ∧ [233, 97, 100, 98, 99] = pairsOccurrence.candidates [98, 97, 98, 233] [100, 99]
      ∧ pairsOccurrence.candidates [233, 97, 98] [99, 100, 99]
        = pairsOccurrence.candidates [98, 97, 98, 233] [100, 99]
      ∧ pairsOccurrence.get 99 < counterLimit ∧ pairsOccurrence.rank 99 < wordLimit := by
  have nodup : pairsListed.Nodup := by decide
  have members : ∀ c, c ∈ pairsListed ↔ InOneOf [98, 97, 98, 233] [100, 99] c := by
    intro c
    grind [InOneOf, pairsListed]
  have perm : List.Perm [233, 97, 100, 98, 99] pairsListed := by decide
  have byRank : List.Pairwise (pairsOccurrence.rank · ≤ pairsOccurrence.rank ·)
      [233, 97, 100, 98, 99] := by
    decide +kernel
  have counted : pairsOccurrence.get 99 < counterLimit := by decide +kernel
  obtain ⟨_, _, _, _, fits, determined, congr, _⟩ :=
    candidates_by_preference pairsOccurrence [98, 97, 98, 233] [100, 99]
  refine ⟨nodup, members, perm, byRank, determined _ _ nodup members perm byRank,
    congr _ _ ?_ ?_, counted, fits 99 counted⟩
  · grind
  · grind

end KeywordHash.Occurrence
