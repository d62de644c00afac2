/-
Module: KeywordHash.Proofs.Signature.WordSuccessor
Layer: Proofs
Purpose: The successor of an offset list as it is computed in an array of machine words: raise the last
  offset if there is room, else look for the rightmost gap, raise the offset in front of it and pack the
  others behind. Each sum has to be a machine word and each index has to be in the array. For a
  candidate none of this fails, and the result is the successor (`wordSuccessor_eq`).
Imports: KeywordHash.Proofs.Outcome, KeywordHash.Proofs.Signature.Shortlex,
  KeywordHash.Text.Numeral, Mathlib.Data.List.Induction
Trusted boundary: none
Main exports: WordFault, rightmostGap, Bounds.wordSuccessor, Bounds.wordSuccessor_eq
Open obligations: none
-/
import KeywordHash.Proofs.Outcome
import KeywordHash.Proofs.Signature.Shortlex
import KeywordHash.Text.Numeral
import Mathlib.Data.List.Induction

namespace KeywordHash

/-- Why an operation on machine words, or on an array of them, has no result. -/
inductive WordFault where
  | overflow
  | outOfRange
deriving DecidableEq, Repr

/-- The sum of two machine words. -/
def wordSum (a b : Nat) : Except WordFault Nat :=
  if a + b < wordLimit then .ok (a + b) else .error .overflow

/-- The difference of two machine words. -/
def wordDifference (a b : Nat) : Except WordFault Nat :=
  if b ≤ a then .ok (a - b) else .error .overflow

/-- The entry of an array at an index. -/
def entryAt (offsets : List Nat) (index : Nat) : Except WordFault Nat :=
  match offsets[index]? with
  | some offset => .ok offset
  | none => .error .outOfRange

/-- Offsets from the given one on, without gaps. -/
def wordRun (start count : Nat) : Except WordFault (List Nat) :=
  (List.range count).mapM (wordSum start)

/-- Go down from an index to the next one whose offset has a gap behind it, and to zero without one. -/
def rightmostGap (offsets : List Nat) : Nat → Except WordFault Nat
  | 0 => .ok 0
  | index + 1 => do
      let offset ← entryAt offsets index
      let following ← entryAt offsets (← wordSum index 1)
      if (← wordSum offset 1) ≠ following then
        return index
      else
        rightmostGap offsets index

/-- The first list of the next size, if there is a next size. -/
def Bounds.nextSize (bounds : Bounds) (length : Nat) : Option (List Nat) :=
  if length < bounds.maxSize then some (List.range (length + 1)) else none

/-- The successor of an offset list whose last offset can not be raised: the offset in front of the
    rightmost gap is raised, or the first offset if there is no gap, or the size. -/
def Bounds.wordShift (bounds : Bounds) (offsets : List Nat) :
    Except WordFault (Option (List Nat)) := do
  let index ← rightmostGap offsets (← wordDifference offsets.length 1)
  let start ← wordSum (← entryAt offsets index) 1
  if 0 < index then
    return some (offsets.take index ++ (← wordRun start (offsets.length - index)))
  else if start < bounds.shortest then
    if (← wordSum (← entryAt offsets 0) offsets.length) < bounds.longest then
      return some (← wordRun start offsets.length)
    else
      return bounds.nextSize offsets.length
  else
    return bounds.nextSize offsets.length

/-- The successor of an offset list, computed in machine words. -/
def Bounds.wordSuccessor (bounds : Bounds) (offsets : List Nat) :
    Except WordFault (Option (List Nat)) := do
  let last ← wordDifference offsets.length 1
  let raised ← wordSum (← entryAt offsets last) 1
  if raised < if 1 < offsets.length then bounds.longest else bounds.shortest then
    return some (offsets.set last raised)
  else if offsets.length = 1 then
    return if 2 ≤ bounds.maxSize then some [0, 1] else none
  else
    bounds.wordShift offsets

/-! ### Operations that succeed -/

theorem wordSum_eq {a b : Nat} (h : a + b < wordLimit) : wordSum a b = .ok (a + b) :=
  if_pos h

theorem wordDifference_eq {a b : Nat} (h : b ≤ a) : wordDifference a b = .ok (a - b) :=
  if_pos h

theorem entryAt_append (init rest : List Nat) (offset : Nat) :
    entryAt (init ++ offset :: rest) init.length = .ok offset := by
  rw [entryAt, List.getElem?_append_right (Nat.le_refl _), Nat.sub_self]
  rfl

theorem wordRun_eq {start count : Nat} (h : start + count ≤ wordLimit) :
    wordRun start count = .ok (List.range' start count) := by
  rw [List.range'_eq_map_range]
  apply mapM_eq_ok
  intro i hi
  have := List.mem_range.1 hi
  exact wordSum_eq (by omega)

/-! ### Gaps

The offsets behind the rightmost gap are packed up to the limit. The list is told by this run of offsets
and by what stands in front of it.
-/

/-- A run up to the limit grows by the offset in front of it. -/
theorem run_succ {limit count : Nat} (count_lt : count < limit) :
    List.range' (limit - (count + 1)) (count + 1)
      = (limit - (count + 1)) :: List.range' (limit - count) count := by
  have start_eq : limit - (count + 1) + 1 = limit - count := by omega
  rw [List.range'_succ, start_eq]

/-- No offset of a run up to the limit can be raised. -/
theorem raiseWithin_run {limit count : Nat} (count_le : count ≤ limit) :
    raiseWithin limit (List.range' (limit - count) count) = none := by
  induction count with
  | zero => rfl
  | succ count ih =>
      have full : ¬ limit - (count + 1) + count + 1 < limit := by omega
      rw [run_succ count_le, raiseWithin, ih (Nat.le_of_succ_le count_le), List.length_range']
      exact if_neg full

/-- The offset in front of the rightmost gap is the one that is raised. -/
theorem raiseWithin_gap {limit offset count : Nat} (init : List Nat)
    (gap : offset + 1 < limit - count) :
    raiseWithin limit (init ++ offset :: List.range' (limit - count) count)
      = some (init ++ List.range' (offset + 1) (count + 1)) := by
  induction init with
  | nil =>
      rw [List.nil_append, raiseWithin, raiseWithin_run (by omega), List.length_range']
      exact if_pos (by omega)
  | cons o init ih =>
      rw [List.cons_append, raiseWithin, ih]
      rfl

/-- From the front of a run up to the limit, the search for a gap ends at an offset with a run behind it
    that goes up to the limit. There is a gap between the two, unless the search has come to the first
    offset. The induction takes the offsets in front of the run from the last to the first. -/
theorem exists_rightmostGap {limit count : Nat} {front : List Nat} (limit_lt : limit < wordLimit)
    (count_pos : 0 < count) (size_le : front.length + count ≤ limit)
    (increasing : (front ++ List.range' (limit - count) count).Pairwise (· < ·)) :
    ∃ init offset tail, tail < limit
      ∧ front ++ List.range' (limit - count) count
        = init ++ offset :: List.range' (limit - tail) tail
      ∧ rightmostGap (front ++ List.range' (limit - count) count) front.length = .ok init.length
      ∧ (init ≠ [] → offset + 1 < limit - tail) := by
  induction front using List.reverseRecOn generalizing count with
  | nil =>
      obtain ⟨tail, rfl⟩ := Nat.exists_eq_succ_of_ne_zero (Nat.ne_of_gt count_pos)
      rw [List.length_nil, Nat.zero_add] at size_le
      exact ⟨[], limit - (tail + 1), tail, size_le, run_succ size_le, rfl, fun h => absurd rfl h⟩
  | append_singleton front offset ih =>
      obtain ⟨tail, rfl⟩ := Nat.exists_eq_succ_of_ne_zero (Nat.ne_of_gt count_pos)
      rw [List.length_append, List.length_singleton] at size_le
      have tail_lt : tail < limit := by omega
      have offset_lt : offset < limit - (tail + 1) := by
        rw [List.pairwise_append] at increasing
        apply increasing.2.2 offset (by simp)
        rw [run_succ tail_lt]
        exact List.mem_cons_self
      have hOffset : entryAt (front ++ [offset] ++ List.range' (limit - (tail + 1)) (tail + 1))
          front.length = .ok offset := by
        rw [List.append_assoc]
        exact entryAt_append front _ offset
      have hFollowing : entryAt (front ++ [offset] ++ List.range' (limit - (tail + 1)) (tail + 1))
          (front.length + 1) = .ok (limit - (tail + 1)) := by
        have := entryAt_append (front ++ [offset]) (List.range' (limit - tail) tail)
          (limit - (tail + 1))
        rwa [List.length_append, List.length_singleton, ← run_succ tail_lt] at this
      rw [List.length_append, List.length_singleton, rightmostGap, hOffset, ok_bind,
        wordSum_eq (by omega), ok_bind, hFollowing, ok_bind, wordSum_eq (by omega), ok_bind]
      by_cases gap : offset + 1 ≠ limit - (tail + 1)
      · refine ⟨front, offset, tail + 1, by omega, by rw [List.append_assoc]; rfl, if_pos gap, ?_⟩
        intro _
        omega
      · -- without a gap the offset belongs to the run, which is one longer then
        have longer_lt : tail + 1 < limit := by omega
        have longer : offset :: List.range' (limit - (tail + 1)) (tail + 1)
            = List.range' (limit - (tail + 2)) (tail + 2) := by
          rw [run_succ longer_lt]
          congr 1
          omega
        rw [if_neg gap, List.append_assoc, List.singleton_append, longer]
        rw [List.append_assoc, List.singleton_append, longer] at increasing
        exact ih (Nat.succ_pos _) (by omega) increasing

/-! ### Candidates -/

namespace Bounds

variable {bounds : Bounds} {offsets : List Nat}

/-- The successor of one offset raises it or goes on to two offsets. -/
theorem successor_singleton (offset : Nat) :
    bounds.successor? [offset] =
      if offset + 1 < bounds.shortest then some [offset + 1] else bounds.nextSize 1 := by
  have shortest_le := bounds.shortest_le
  rw [successor?, raiseWithin]
  by_cases room : offset + 1 < bounds.shortest
  · rw [if_pos room]
    exact if_pos ⟨room, by simp only [List.length_nil]; omega⟩
  · rw [if_neg room]
    exact if_neg fun h => room h.1

/-- If the offsets behind the first one are a run up to the limit, the whole list is moved, if there is
    room for it, or the next size begins. -/
theorem successor_run (offset : Nat) {tail : Nat} (tail_le : tail ≤ bounds.longest) :
    bounds.successor? (offset :: List.range' (bounds.longest - tail) tail) =
      if offset + 1 < bounds.shortest ∧ offset + (tail + 1) < bounds.longest then
        some (List.range' (offset + 1) (tail + 1))
      else
        bounds.nextSize (tail + 1) := by
  rw [successor?, raiseWithin_run tail_le, List.length_range', nextSize, List.range_eq_range']
  rfl

/-- Where the rightmost gap is behind an offset that is not the first, this offset is raised and those
    behind it are packed, in machine words as in the successor. -/
theorem wordShift_of_gap (longest_lt : bounds.longest < wordLimit) {init : List Nat}
    {offset tail : Nat} (init_ne : init ≠ [])
    (split_eq : offsets = init ++ offset :: List.range' (bounds.longest - tail) tail)
    (gap_eq : rightmostGap offsets (offsets.length - 1) = .ok init.length)
    (room : offset + 1 < bounds.longest - tail) :
    bounds.wordShift offsets = .ok (bounds.successor? offsets) := by
  obtain ⟨o, init, rfl⟩ := List.exists_cons_of_ne_nil init_ne
  have run_length : (offset :: List.range' (bounds.longest - tail) tail).length = tail + 1 := by
    rw [List.length_cons, List.length_range']
  have size_eq : offsets.length = (o :: init).length + (tail + 1) := by
    rw [split_eq, List.length_append, run_length]
  have hOffset : entryAt offsets (o :: init).length = .ok offset := by
    rw [split_eq]
    exact entryAt_append (o :: init) _ offset
  have inside : 0 < (o :: init).length := Nat.succ_pos _
  have count_eq : offsets.length - (o :: init).length = tail + 1 := by omega
  have following_eq : bounds.successor? offsets
      = some (o :: init ++ List.range' (offset + 1) (tail + 1)) := by
    rw [split_eq, List.cons_append, successor?, raiseWithin_gap init room]
    rfl
  rw [wordShift, wordDifference_eq (by omega), ok_bind, gap_eq, ok_bind, hOffset, ok_bind,
    wordSum_eq (by omega), ok_bind, if_pos inside, count_eq, wordRun_eq (by omega), ok_bind,
    following_eq, split_eq, List.take_left]
  rfl

/-- Where all offsets behind the first one are packed, the whole list is moved or the next size begins, in
    machine words as in the successor. -/
theorem wordShift_of_packed (longest_lt : bounds.longest < wordLimit) {offset tail : Nat}
    (tail_lt : tail < bounds.longest) (top_le : offset + tail < bounds.longest)
    (split_eq : offsets = offset :: List.range' (bounds.longest - tail) tail)
    (gap_eq : rightmostGap offsets (offsets.length - 1) = .ok 0) :
    bounds.wordShift offsets = .ok (bounds.successor? offsets) := by
  have size_eq : offsets.length = tail + 1 := by
    rw [split_eq, List.length_cons, List.length_range']
  have hOffset : entryAt offsets 0 = .ok offset := by
    rw [split_eq]
    rfl
  have following_eq := successor_run offset (Nat.le_of_lt tail_lt)
  rw [wordShift, wordDifference_eq (by omega), ok_bind, gap_eq, ok_bind, hOffset, ok_bind,
    wordSum_eq (by omega), ok_bind, if_neg (Nat.lt_irrefl 0), size_eq, split_eq, following_eq]
  by_cases raisable : offset + 1 < bounds.shortest
  · rw [if_pos raisable, ok_bind, wordSum_eq (by omega), ok_bind]
    by_cases room : offset + (tail + 1) < bounds.longest
    · rw [if_pos room, if_pos ⟨raisable, room⟩, wordRun_eq (by omega)]
      rfl
    · rw [if_neg room, if_neg fun both => room both.2]
      rfl
  · rw [if_neg raisable, if_neg fun both => raisable both.1]
    rfl

/-- A candidate whose last offset has no room for raising is a list of offsets in front of a run up to
    the limit, and what is done in machine words is to find where the run ends. -/
theorem wordShift_eq (admitted : bounds.Admits offsets) (longest_lt : bounds.longest < wordLimit)
    {front : List Nat} {last : Nat} (h : offsets = front ++ [last])
    (full : last + 1 = bounds.longest) :
    bounds.wordShift offsets = .ok (bounds.successor? offsets) := by
  have size_le := Nat.le_trans admitted.length_le bounds.maxSize_le_longest
  have last_eq : [last] = List.range' (bounds.longest - 1) 1 := by
    rw [← full, Nat.add_sub_cancel]
    rfl
  rw [last_eq] at h
  have length_eq : offsets.length = front.length + 1 := by
    rw [h, List.length_append, List.length_range']
  obtain ⟨init, offset, tail, tail_lt, split_eq, gap_eq, gap⟩ :=
    exists_rightmostGap longest_lt Nat.one_pos (length_eq ▸ size_le) (h ▸ admitted.increasing)
  rw [← h] at split_eq gap_eq
  have gap_eq' : rightmostGap offsets (offsets.length - 1) = .ok init.length := by
    rwa [length_eq, Nat.add_sub_cancel]
  by_cases init_nil : init = []
  · subst init_nil
    rw [List.nil_append] at split_eq
    have top_le : offset + tail < bounds.longest := by
      have := add_length_lt (split_eq ▸ admitted.increasing) (split_eq ▸ admitted.all_lt)
      rwa [List.length_range'] at this
    exact wordShift_of_packed longest_lt tail_lt top_le split_eq gap_eq'
  · exact wordShift_of_gap longest_lt init_nil split_eq gap_eq' (gap init_nil)

/-- For a candidate all operations on machine words succeed, and they give its successor. -/
theorem wordSuccessor_eq (admitted : bounds.Admits offsets)
    (longest_lt : bounds.longest < wordLimit) :
    bounds.wordSuccessor offsets = .ok (bounds.successor? offsets) := by
  obtain h | ⟨front, last, h⟩ := List.eq_nil_or_concat offsets
  · exact absurd h admitted.ne_nil
  · have length_eq : offsets.length = front.length + 1 := by
      rw [h, List.concat_eq_append, List.length_append, List.length_singleton]
    rw [List.concat_eq_append] at h
    have last_lt : last < bounds.longest := admitted.all_lt last (by simp [h])
    have hLast : entryAt offsets front.length = .ok last := by
      rw [h]
      exact entryAt_append front [] last
    rw [wordSuccessor, wordDifference_eq (by omega), ok_bind, length_eq, Nat.add_sub_cancel,
      hLast, ok_bind, wordSum_eq (by omega), ok_bind]
    cases front with
    | nil =>
        subst h
        rw [List.nil_append, successor_singleton]
        by_cases room : last + 1 < bounds.shortest
        · rw [if_pos room]
          exact if_pos room
        · rw [if_neg room]
          exact if_neg room
    | cons o front =>
        have several : 1 < (o :: front).length + 1 := Nat.succ_lt_succ (Nat.succ_pos _)
        rw [if_pos several]
        by_cases room : last + 1 < bounds.longest
        · have raised : raiseWithin bounds.longest
              (front ++ last :: List.range' (bounds.longest - 0) 0)
                = some (front ++ List.range' (last + 1) (0 + 1)) := raiseWithin_gap front room
          rw [if_pos room, h, List.set_append_right _ _ (Nat.le_refl _), Nat.sub_self,
            List.cons_append, List.cons_append, successor?]
          rw [List.range'_zero] at raised
          rw [raised]
          rfl
        · rw [if_neg room, if_neg (Nat.ne_of_gt several)]
          exact wordShift_eq admitted longest_lt h (by omega)

end Bounds

end KeywordHash
