/-
Module: KeywordHash.Proofs.Values.Adjustment
Layer: Proofs
Purpose: Whatever the order of preference is, the characters that are offered for raising are those in
  exactly one of two samples (`mem_candidates_iff`).
Imports: KeywordHash.Values.Adjustment
Trusted boundary: none
Main exports: Occurrence.mem_insertByRank, Occurrence.mem_candidates_iff
Open obligations: none
-/
import KeywordHash.Values.Adjustment

namespace KeywordHash.Occurrence

variable {occurrence : Occurrence}

/-- Putting a character into a list adds this character and loses none. -/
theorem mem_insertByRank {c d : UInt8} {list : List UInt8} :
    d ∈ occurrence.insertByRank c list ↔ d = c ∨ d ∈ list := by
  induction list with
  | nil => simp [insertByRank]
  | cons e rest ih =>
      rw [insertByRank]
      split
      · exact List.mem_cons
      · split
        · next same => simp [same]
        · rw [List.mem_cons, List.mem_cons, ih]
          exact or_left_comm

theorem mem_foldr_insertByRank {d : UInt8} {list : List UInt8} :
    d ∈ list.foldr occurrence.insertByRank [] ↔ d ∈ list := by
  induction list with
  | nil => rfl
  | cons c rest ih => rw [List.foldr_cons, mem_insertByRank, ih, List.mem_cons]

/-- The candidates are the characters in exactly one of the samples. -/
theorem mem_candidates_iff {c : UInt8} {a b : List UInt8} :
    c ∈ occurrence.candidates a b ↔ c ∈ a ∧ c ∉ b ∨ c ∈ b ∧ c ∉ a := by
  rw [candidates, mem_foldr_insertByRank]
  simp

end KeywordHash.Occurrence
