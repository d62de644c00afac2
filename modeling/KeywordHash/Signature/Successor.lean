/-
Module: KeywordHash.Signature.Successor
Layer: Signature
Purpose: The order of the candidates: fewer offsets first, and lexicographic among those of one size. The
  successor of an offset list raises the rightmost offset that leaves room for those behind it and
  packs these directly behind; when no offset can be raised, the least list with one more offset
  follows. A successor is again a candidate (`admits_successor`), and the finitely many candidates that
  remain become fewer (`remaining_successor_lt`).
Imports: KeywordHash.Signature.Bounds
Trusted boundary: none
Main exports: raiseWithin, Bounds.successor?, Bounds.remaining, Bounds.admits_successor,
  Bounds.remaining_successor_lt, Candidate.first, Candidate.next?
Open obligations: none
-/
import KeywordHash.Signature.Bounds

namespace KeywordHash

/-- Raise the rightmost offset that can be raised within the limit, and pack those behind it directly
    behind. -/
def raiseWithin (limit : Nat) : List Nat → Option (List Nat)
  | [] => none
  | o :: rest =>
      match raiseWithin limit rest with
      | some raised => some (o :: raised)
      | none =>
          if o + rest.length + 1 < limit then
            some (List.range' (o + 1) (rest.length + 1))
          else
            none

/-- The successor of an offset list. Only the first offset is bound by the shortest keyword. -/
def Bounds.successor? (bounds : Bounds) : List Nat → Option (List Nat)
  | [] => none
  | o :: rest =>
      match raiseWithin bounds.longest rest with
      | some raised => some (o :: raised)
      | none =>
          if o + 1 < bounds.shortest ∧ o + rest.length + 1 < bounds.longest then
            some (List.range' (o + 1) (rest.length + 1))
          else if rest.length + 1 < bounds.maxSize then
            some (List.range' 0 (rest.length + 2))
          else
            none

/-!
### Successors are candidates

The induction for `raiseWithin` keeps a lower bound on all offsets, because the offset in front of a
raised list has to stay below it.
-/

/-- Packed offsets increase strictly. -/
theorem pairwise_range' (start count : Nat) : (List.range' start count).Pairwise (· < ·) := by
  simpa using List.pairwise_lt_range' (s := start) (n := count) 1

/-- Raising keeps the number of offsets. -/
theorem length_raiseWithin {limit : Nat} {offsets raised : List Nat}
    (h : raiseWithin limit offsets = some raised) : raised.length = offsets.length := by
  induction offsets generalizing raised with
  | nil => simp [raiseWithin] at h
  | cons o rest ih =>
      rw [raiseWithin] at h
      split at h
      · next raisedRest hRest =>
          cases h
          simp [ih hRest]
      · split at h
        · cases h
          simp
        · cases h

/-- Raising keeps the offsets above any bound that they were above. -/
theorem lt_of_mem_raiseWithin {limit bound : Nat} {offsets raised : List Nat}
    (h : raiseWithin limit offsets = some raised) (above : ∀ o ∈ offsets, bound < o) :
    ∀ o ∈ raised, bound < o := by
  induction offsets generalizing raised with
  | nil => simp [raiseWithin] at h
  | cons o rest ih =>
      rw [raiseWithin] at h
      split at h
      · next raisedRest hRest =>
          cases h
          intro x hx
          rcases List.mem_cons.1 hx with rfl | hx
          · exact above _ (by simp)
          · exact ih hRest (fun y hy => above y (by simp [hy])) x hx
      · split at h
        · cases h
          intro x hx
          have := above o (by simp)
          simp only [List.mem_range'_1] at hx
          omega
        · cases h

/-- Raising keeps the offsets below the limit. -/
theorem raiseWithin_lt {limit : Nat} {offsets raised : List Nat}
    (h : raiseWithin limit offsets = some raised) (below : ∀ o ∈ offsets, o < limit) :
    ∀ o ∈ raised, o < limit := by
  induction offsets generalizing raised with
  | nil => simp [raiseWithin] at h
  | cons o rest ih =>
      rw [raiseWithin] at h
      split at h
      · next raisedRest hRest =>
          cases h
          intro x hx
          rcases List.mem_cons.1 hx with rfl | hx
          · exact below _ (by simp)
          · exact ih hRest (fun y hy => below y (by simp [hy])) x hx
      · split at h
        · cases h
          intro x hx
          simp only [List.mem_range'_1] at hx
          omega
        · cases h

/-- Raising keeps the offsets in strict order. -/
theorem pairwise_raiseWithin {limit : Nat} {offsets raised : List Nat}
    (h : raiseWithin limit offsets = some raised) (increasing : offsets.Pairwise (· < ·)) :
    raised.Pairwise (· < ·) := by
  induction offsets generalizing raised with
  | nil => simp [raiseWithin] at h
  | cons o rest ih =>
      have ordered := List.pairwise_cons.1 increasing
      rw [raiseWithin] at h
      split at h
      · next raisedRest hRest =>
          cases h
          exact List.pairwise_cons.2
            ⟨lt_of_mem_raiseWithin hRest ordered.1, ih hRest ordered.2⟩
      · split at h
        · cases h
          exact pairwise_range' _ _
        · cases h

namespace Bounds

/-- A packed list of offsets is a candidate if its first and its last offset are in bounds. -/
theorem admits_range' (bounds : Bounds) {start count : Nat} (count_pos : 0 < count)
    (head_lt : start < bounds.shortest) (last_lt : start + count ≤ bounds.longest)
    (count_le : count ≤ bounds.maxSize) : bounds.Admits (List.range' start count) where
  ne_nil := by simp; omega
  increasing := pairwise_range' _ _
  head_lt := by
    obtain ⟨n, rfl⟩ : ∃ n, count = n + 1 := ⟨count - 1, by omega⟩
    simpa [List.range'_succ] using head_lt
  all_lt := by
    intro o ho
    simp only [List.mem_range'_1] at ho
    omega
  length_le := by simpa using count_le

/-- The first character alone can be sampled within all bounds. -/
theorem admits_first (bounds : Bounds) : bounds.Admits [0] := by
  have size_pos : 1 ≤ bounds.maxSize := by
    simp only [maxSize]
    omega
  have longest_pos := Nat.lt_of_lt_of_le bounds.shortest_pos bounds.shortest_le
  exact bounds.admits_range' (by omega) bounds.shortest_pos longest_pos size_pos

/-- The successor of a candidate is a candidate. -/
theorem admits_successor {bounds : Bounds} {offsets following : List Nat}
    (admitted : bounds.Admits offsets) (h : bounds.successor? offsets = some following) :
    bounds.Admits following := by
  have maxSize_le := bounds.maxSize_le_longest
  have shortest_pos := bounds.shortest_pos
  cases offsets with
  | nil => exact absurd rfl admitted.ne_nil
  | cons o rest =>
      have ordered := List.pairwise_cons.1 admitted.increasing
      have head_lt : o < bounds.shortest := admitted.head_lt o rfl
      have length_le := admitted.length_le
      have all_lt := admitted.all_lt
      simp only [List.length_cons] at length_le
      rw [successor?] at h
      split at h
      · next raised hRaised =>
          cases h
          constructor
          · simp
          · exact List.pairwise_cons.2
              ⟨lt_of_mem_raiseWithin hRaised ordered.1, pairwise_raiseWithin hRaised ordered.2⟩
          · simpa using head_lt
          · intro x hx
            rcases List.mem_cons.1 hx with rfl | hx
            · exact all_lt _ (by simp)
            · exact raiseWithin_lt hRaised (fun y hy => all_lt y (by simp [hy])) x hx
          · simpa [length_raiseWithin hRaised] using length_le
      · split at h
        · cases h
          exact bounds.admits_range' (by omega) (by omega) (by omega) (by omega)
        · split at h
          · cases h
            exact bounds.admits_range' (by omega) (by omega) (by omega) (by omega)
          · cases h

/-!
### Successors come to an end

An offset list is read as a numeral to the base of the limit whose digits count how far the offsets are
from it. Raising an offset lowers its digit, and the digits behind it can not make up for that. The size
is a further digit in front of all others.
-/

/-- How far the offsets are from the limit, as a numeral. -/
def slack (limit : Nat) : List Nat → Nat
  | [] => 0
  | o :: rest => (limit - 1 - o) * limit.pow rest.length + slack limit rest

/-- The slack is less than the next power of the limit. -/
theorem slack_lt {limit : Nat} (limit_pos : 0 < limit) (offsets : List Nat) :
    slack limit offsets < limit.pow offsets.length := by
  induction offsets with
  | nil => simp [slack]
  | cons o rest ih =>
      have digit : limit - 1 - o + 1 ≤ limit := by omega
      calc (limit - 1 - o) * limit.pow rest.length + slack limit rest
          < (limit - 1 - o) * limit.pow rest.length + limit.pow rest.length := by omega
        _ = (limit - 1 - o + 1) * limit.pow rest.length := by rw [Nat.add_mul, Nat.one_mul]
        _ ≤ limit * limit.pow rest.length := Nat.mul_le_mul_right _ digit
        _ = limit.pow (o :: rest).length := Nat.mul_comm _ _

/-- A packed list behind a raised offset has less slack than the list had. -/
theorem slack_range'_lt {limit o : Nat} {rest : List Nat} (room : o + rest.length + 1 < limit) :
    slack limit (List.range' (o + 1) (rest.length + 1)) < slack limit (o :: rest) := by
  have behind := slack_lt (by omega : 0 < limit) (List.range' (o + 1 + 1) rest.length)
  rw [List.length_range'] at behind
  have digit : limit - 1 - o = limit - 1 - (o + 1) + 1 := by omega
  rw [List.range'_succ, slack, slack, List.length_range', digit, Nat.add_mul, Nat.one_mul]
  omega

/-- Raising an offset takes slack away. -/
theorem slack_raiseWithin_lt {limit : Nat} {offsets raised : List Nat}
    (h : raiseWithin limit offsets = some raised) :
    slack limit raised < slack limit offsets := by
  induction offsets generalizing raised with
  | nil => simp [raiseWithin] at h
  | cons o rest ih =>
      rw [raiseWithin] at h
      split at h
      · next raisedRest hRest =>
          cases h
          have := ih hRest
          simp only [slack, length_raiseWithin hRest]
          omega
      · split at h
        · next room =>
            cases h
            exact slack_range'_lt room
        · cases h

/-- A bound on the number of candidates behind the given offset list. -/
def remaining (bounds : Bounds) (offsets : List Nat) : Nat :=
  (bounds.maxSize - offsets.length) * bounds.longest.pow bounds.maxSize
    + slack bounds.longest offsets

/-- Fewer candidates remain behind a successor. -/
theorem remaining_successor_lt {bounds : Bounds} {offsets following : List Nat}
    (h : bounds.successor? offsets = some following) :
    bounds.remaining following < bounds.remaining offsets := by
  have longest_pos : 0 < bounds.longest :=
    Nat.lt_of_lt_of_le bounds.shortest_pos bounds.shortest_le
  cases offsets with
  | nil => simp [successor?] at h
  | cons o rest =>
      rw [successor?] at h
      split at h
      · next raised hRaised =>
          cases h
          have := slack_raiseWithin_lt hRaised
          simp only [remaining, List.length_cons, slack, length_raiseWithin hRaised]
          omega
      · split at h
        · next room =>
            cases h
            have less : slack bounds.longest (List.range' (o + 1) (rest.length + 1))
                < slack bounds.longest (o :: rest) := slack_range'_lt room.2
            simp only [remaining, List.length_range', List.length_cons]
            omega
        · split at h
          · next larger =>
              cases h
              have slack_small := slack_lt longest_pos (List.range' 0 (rest.length + 2))
              rw [List.length_range'] at slack_small
              have power_le : bounds.longest.pow (rest.length + 2)
                  ≤ bounds.longest.pow bounds.maxSize :=
                Nat.pow_le_pow_right longest_pos (by omega)
              have size : bounds.maxSize - (rest.length + 1)
                  = bounds.maxSize - (rest.length + 2) + 1 := by omega
              simp only [remaining, List.length_range', List.length_cons, size, Nat.add_mul,
                Nat.one_mul]
              omega
          · cases h

end Bounds

namespace Candidate

variable {bounds : Bounds}

/-- The first candidate samples the first character. -/
def first (bounds : Bounds) : Candidate bounds where
  signature :=
    { offsets := [0], ne_nil := bounds.admits_first.ne_nil
      increasing := bounds.admits_first.increasing }
  admitted := bounds.admits_first

/-- The candidate after this one. -/
def next? (candidate : Candidate bounds) : Option (Candidate bounds) :=
  match h : bounds.successor? candidate.signature.offsets with
  | none => none
  | some offsets =>
      have admitted := Bounds.admits_successor candidate.admitted h
      some
        { signature :=
            { offsets := offsets, ne_nil := admitted.ne_nil, increasing := admitted.increasing }
          admitted := admitted }

/-- A bound on the number of candidates after this one. -/
def remaining (candidate : Candidate bounds) : Nat :=
  bounds.remaining candidate.signature.offsets

/-- Fewer candidates remain after the next one. -/
theorem remaining_next_lt {candidate following : Candidate bounds}
    (h : candidate.next? = some following) : following.remaining < candidate.remaining := by
  rw [next?] at h
  split at h
  · cases h
  · next offsets hOffsets =>
      cases h
      exact Bounds.remaining_successor_lt hOffsets

end Candidate

end KeywordHash
