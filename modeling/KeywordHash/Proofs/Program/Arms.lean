/-
Module: KeywordHash.Proofs.Program.Arms
Layer: Proofs
Purpose: What the arms of a program add up. The first arm that covers a length has the offsets that
  exist in words of this length, the greatest first, so the program samples the same characters as the
  table, in the opposite order (`Program.hash_eq_some`). It never reads behind the end of a word.
Imports: KeywordHash.Program, Mathlib.Algebra.Ring.Nat
Trusted boundary: none
Main exports: armOffsets, armOffsets_armsBelow, armOffsets_lengthArms, mapM_sampled,
  Program.hash_eq_some
Open obligations: none
-/
import KeywordHash.Program
import Mathlib.Algebra.Ring.Nat

namespace KeywordHash

/-- The offsets of the first arm that covers the length. No arm has no offsets. -/
def armOffsets (arms : List Arm) (length : Nat) : List Nat :=
  (arms.find? (·.covers length)).elim [] (·.offsets)

theorem armOffsets_cons (arm : Arm) (arms : List Arm) (length : Nat) :
    armOffsets (arm :: arms) length
      = if arm.covers length then arm.offsets else armOffsets arms length := by
  rw [armOffsets, List.find?_cons]
  cases arm.covers length <;> rfl

/-- For lengths up to the greatest one that is asked for, the first arm has the offsets below the
    length. Each arm leaves to those behind it the lengths that its own offset is not below, and these
    are the lengths that they are made for. -/
theorem armOffsets_armsBelow {offsets : List Nat} (decreasing : offsets.Pairwise (· > ·))
    {longest : Option Nat} {length : Nat} (within : longest.all (length ≤ ·)) :
    armOffsets (armsBelow longest offsets) length = offsets.filter (· < length) := by
  induction offsets generalizing longest with
  | nil => rfl
  | cons offset smaller ih =>
      obtain ⟨greatest, rest⟩ := List.pairwise_cons.1 decreasing
      rw [armsBelow, armOffsets_cons]
      by_cases reached : offset < length
      · have covers : Arm.covers ⟨offset + 1, longest, offset :: smaller⟩ length :=
          Bool.and_eq_true_iff.2 ⟨decide_eq_true reached, within⟩
        have all_below : ∀ other ∈ offset :: smaller, decide (other < length) := by
          intro other hOther
          rcases List.mem_cons.1 hOther with rfl | hOther
          · exact decide_eq_true reached
          · exact decide_eq_true (Nat.lt_trans (greatest other hOther) reached)
        rw [if_pos covers, List.filter_eq_self.2 all_below]
      · have not_covers : ¬ Arm.covers ⟨offset + 1, longest, offset :: smaller⟩ length := by
          intro covers
          exact reached (of_decide_eq_true (Bool.and_eq_true_iff.1 covers).1)
        have within' : (some offset).all (length ≤ ·) := decide_eq_true (Nat.not_lt.1 reached)
        rw [if_neg not_covers, ih rest within', List.filter_cons_of_neg]
        exact fun below => reached (of_decide_eq_true below)

/-- The arms of a signature sample a word at the offsets that exist in it, from the greatest down. -/
theorem armOffsets_lengthArms (signature : Signature) (length : Nat) :
    armOffsets (lengthArms signature) length = (signature.sampledOffsets length).reverse := by
  have decreasing : signature.offsets.reverse.Pairwise (· > ·) :=
    List.pairwise_reverse.2 signature.increasing
  rw [lengthArms, armOffsets_armsBelow decreasing rfl, List.filter_reverse,
    Signature.sampledOffsets]

/-- All offsets below the length of a word can be read. -/
theorem mapM_sampled (word : List UInt8) (offsets : List Nat) :
    (offsets.filter (· < word.length)).mapM (word[·]?) = some (offsets.filterMap (word[·]?)) := by
  induction offsets with
  | nil => rfl
  | cons offset rest ih =>
      by_cases reached : offset < word.length
      · have hRead : word[offset]? = some word[offset] := List.getElem?_eq_getElem reached
        rw [List.filter_cons_of_pos (by simpa using reached), List.mapM_cons, hRead, ih,
          List.filterMap_cons_some hRead]
        rfl
      · have hRead : word[offset]? = none := List.getElem?_eq_none (Nat.not_lt.1 reached)
        rw [List.filter_cons_of_neg (by simpa using Nat.not_lt.1 reached), ih,
          List.filterMap_cons_none hRead]

namespace Program

theorem hash_eq_mapM (program : Program) (word : List UInt8) :
    program.hash word = ((armOffsets program.arms word.length).mapM (word[·]?)).map
      fun characters => word.length + (characters.map program.value).sum := by
  rw [hash, armOffsets]
  cases program.arms.find? (·.covers word.length) with
  | none => rfl
  | some arm =>
      simp only [Option.elim_some]
      cases arm.offsets.mapM (word[·]?) <;> rfl

/-- The hash of a program with the arms of a signature never fails. It adds the values of the characters
    at the offsets of the signature. -/
theorem hash_eq_some {program : Program} {signature : Signature}
    (arms_eq : program.arms = lengthArms signature) (word : List UInt8) :
    program.hash word
      = some (word.length + ((signature.realize word).map program.value).sum) := by
  rw [hash_eq_mapM, arms_eq, armOffsets_lengthArms, Signature.sampledOffsets, ← List.filter_reverse,
    mapM_sampled, List.filterMap_reverse, Option.map_some, List.map_reverse, List.sum_reverse]
  rfl

end Program

end KeywordHash
