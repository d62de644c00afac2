/-
Module: KeywordHash.Proofs.Signature.Enumeration
Layer: Proofs
Purpose: The enumeration of candidates is complete (`enumeration_complete`): it goes through all
  candidates, each once, those with fewer offsets first and those of one size in lexicographic order,
  and then ends for good. The walk from successor to successor can be made in machine words.
Imports: KeywordHash.Proofs.Signature.Shortlex, KeywordHash.Proofs.Signature.WordSuccessor,
  KeywordHash.Signature.Enumeration
Trusted boundary: none
Main exports: Candidate.onwards, Enumeration.signatures, Bounds.Enumerated, enumeration_complete
Open obligations: none
-/
import KeywordHash.Proofs.Signature.Shortlex
import KeywordHash.Proofs.Signature.WordSuccessor
import KeywordHash.Signature.Enumeration

namespace KeywordHash

open List (Shortlex)

namespace Candidate

variable {bounds : Bounds}

/-- The signature of the candidate and those of all candidates after it. -/
def onwards (candidate : Candidate bounds) : List Signature :=
  match _ : candidate.next? with
  | none => [candidate.signature]
  | some following => candidate.signature :: following.onwards
termination_by candidate.remaining
decreasing_by exact remaining_next_lt ‹candidate.next? = _›

theorem onwards_of_none {candidate : Candidate bounds} (h : candidate.next? = none) :
    candidate.onwards = [candidate.signature] := by
  rw [onwards]
  split <;> simp_all

theorem onwards_of_some {candidate following : Candidate bounds}
    (h : candidate.next? = some following) :
    candidate.onwards = candidate.signature :: following.onwards := by
  rw [onwards]
  split <;> simp_all

/-- The next candidate has the successor of the offsets. -/
theorem successor_eq (candidate : Candidate bounds) :
    bounds.successor? candidate.signature.offsets
      = candidate.next?.map (·.signature.offsets) := by
  rw [next?]
  split
  · next hSuccessor => rw [hSuccessor, Option.map_none]
  · next hSuccessor => exact hSuccessor

/-- From a candidate on, the walk comes to this candidate and to all that are later in the order. The
    induction is on what remains; no candidate lies between one and the next. -/
theorem mem_onwards {candidate : Candidate bounds} {offsets : List Nat} :
    offsets ∈ candidate.onwards.map (·.offsets) ↔ bounds.Admits offsets ∧
      (candidate.signature.offsets = offsets
        ∨ Shortlex (· < ·) candidate.signature.offsets offsets) := by
  induction candidate using onwards.induct with
  | case1 candidate hNext =>
      have last : bounds.successor? candidate.signature.offsets = none := by
        rw [successor_eq, hNext, Option.map_none]
      rw [onwards_of_none hNext, List.map_singleton, List.mem_singleton]
      constructor
      · rintro rfl
        exact ⟨candidate.admitted, Or.inl rfl⟩
      · rintro ⟨admitted, rfl | later⟩
        · rfl
        · obtain ⟨following, hFollowing, _⟩ :=
            Bounds.successor_least candidate.admitted.ne_nil admitted later
          rw [last] at hFollowing
          cases hFollowing
  | case2 candidate following hNext ih =>
      have hSuccessor : bounds.successor? candidate.signature.offsets
          = some following.signature.offsets := by
        rw [successor_eq, hNext, Option.map_some]
      rw [onwards_of_some hNext, List.map_cons, List.mem_cons, ih]
      constructor
      · rintro (rfl | ⟨admitted, order⟩)
        · exact ⟨candidate.admitted, Or.inl rfl⟩
        · refine ⟨admitted, Or.inr ?_⟩
          have step := Bounds.shortlex_successor hSuccessor
          rcases order with same | later
          · rwa [← same]
          · exact shortlex_trans step later
      · rintro ⟨admitted, rfl | later⟩
        · exact Or.inl rfl
        · obtain ⟨least, hLeast, order⟩ :=
            Bounds.successor_least candidate.admitted.ne_nil admitted later
          rw [hSuccessor] at hLeast
          cases hLeast
          exact Or.inr ⟨admitted, order⟩

/-- From a candidate on, the walk follows the order. -/
theorem pairwise_onwards (candidate : Candidate bounds) :
    (candidate.onwards.map (·.offsets)).Pairwise (Shortlex (· < ·)) := by
  induction candidate using onwards.induct with
  | case1 candidate hNext =>
      rw [onwards_of_none hNext]
      exact List.pairwise_singleton _ _
  | case2 candidate following hNext ih =>
      rw [onwards_of_some hNext, List.map_cons, List.pairwise_cons]
      refine ⟨fun offsets hOffsets => ?_, ih⟩
      have step : Shortlex (· < ·) candidate.signature.offsets following.signature.offsets := by
        apply Bounds.shortlex_successor
        rw [successor_eq, hNext, Option.map_some]
      rcases (mem_onwards.1 hOffsets).2 with same | later
      · rwa [← same]
      · exact shortlex_trans step later

theorem getElem?_onwards_zero (candidate : Candidate bounds) :
    candidate.onwards[0]? = some candidate.signature := by
  rw [onwards]
  split <;> rfl

/-- From a candidate of one offset on, the walk comes to the greater offsets one by one, as long as they
    exist in the shortest keyword. The induction is on how far they lie ahead. -/
theorem getElem?_onwards_single {candidate : Candidate bounds} {offset : Nat}
    (hOffsets : candidate.signature.offsets = [offset]) {ahead : Nat}
    (ahead_lt : offset + ahead < bounds.shortest) :
    (candidate.onwards[ahead]?).map (·.offsets) = some [offset + ahead] := by
  induction ahead generalizing candidate offset with
  | zero => rw [getElem?_onwards_zero, Option.map_some, hOffsets, Nat.add_zero]
  | succ ahead ih =>
      have hSuccessor := successor_eq candidate
      rw [hOffsets, Bounds.successor_singleton, if_pos (by omega)] at hSuccessor
      obtain ⟨following, hNext, offsets_eq⟩ := Option.map_eq_some_iff.1 hSuccessor.symm
      rw [onwards_of_some hNext, List.getElem?_cons_succ, ih offsets_eq (by omega)]
      congr 2
      omega

/-- In machine words, each signature of the walk leads to the one behind it, and the last to none. -/
theorem wordSuccessor_onwards (longest_lt : bounds.longest < wordLimit)
    {candidate : Candidate bounds} {index : Nat} {signature : Signature}
    (h : candidate.onwards[index]? = some signature) :
    bounds.wordSuccessor signature.offsets
      = .ok (candidate.onwards[index + 1]?.map (·.offsets)) := by
  induction candidate using onwards.induct generalizing index with
  | case1 candidate hNext =>
      rw [onwards_of_none hNext] at h ⊢
      obtain ⟨inside, rfl⟩ := List.getElem?_eq_some_iff.1 h
      rw [List.length_singleton, Nat.lt_one_iff] at inside
      subst inside
      rw [List.getElem_cons_zero, Bounds.wordSuccessor_eq candidate.admitted longest_lt,
        successor_eq, hNext]
      rfl
  | case2 candidate following hNext ih =>
      rw [onwards_of_some hNext] at h ⊢
      cases index with
      | zero =>
          cases h
          rw [List.getElem?_cons_succ, getElem?_onwards_zero,
            Bounds.wordSuccessor_eq candidate.admitted longest_lt, successor_eq, hNext]
          rfl
      | succ index =>
          rw [List.getElem?_cons_succ] at h ⊢
          exact ih h

end Candidate

namespace Enumeration

/-- All signatures that are still to come. -/
def signatures (enumeration : Enumeration) : List Signature :=
  match enumeration.upcoming with
  | none => []
  | some candidate => candidate.onwards

/-- Nothing comes next if and only if nothing is still to come. -/
theorem next?_eq_none_iff {enumeration : Enumeration} :
    enumeration.next? = none ↔ enumeration.signatures = [] := by
  obtain ⟨bounds, upcoming⟩ := enumeration
  cases upcoming with
  | none => exact iff_of_true rfl rfl
  | some candidate =>
      have head := candidate.getElem?_onwards_zero
      constructor
      · intro h
        cases h
      · intro empty
        have empty' : candidate.onwards = [] := empty
        rw [empty'] at head
        cases head

/-- What comes next is the first of what is still to come. -/
theorem signatures_of_next {enumeration following : Enumeration} {signature : Signature}
    (h : enumeration.next? = some (signature, following)) :
    enumeration.signatures = signature :: following.signatures := by
  rw [next?] at h
  split at h
  · cases h
  · next candidate hUpcoming =>
      cases h
      rw [signatures, hUpcoming]
      simp only [signatures]
      cases hNext : candidate.next? with
      | none => exact Candidate.onwards_of_none hNext
      | some following => exact Candidate.onwards_of_some hNext

/-- Calls take signatures off the front of what is still to come. -/
theorem takeAfter_eq (calls : Nat) (taken : List Signature) (enumeration : Enumeration) :
    (takeAfter taken calls enumeration).1 = taken.reverse ++ enumeration.signatures.take calls
      ∧ (takeAfter taken calls enumeration).2.signatures = enumeration.signatures.drop calls := by
  induction calls generalizing taken enumeration with
  | zero => simp [takeAfter]
  | succ calls ih =>
      rw [takeAfter]
      cases hNext : enumeration.next? with
      | none =>
          have none_left := next?_eq_none_iff.1 hNext
          simp [none_left]
      | some step =>
          obtain ⟨signature, following⟩ := step
          obtain ⟨taken_eq, left_eq⟩ := ih (signature :: taken) following
          rw [signatures_of_next hNext, List.take_succ_cons, List.drop_succ_cons]
          refine ⟨?_, left_eq⟩
          rw [taken_eq, List.reverse_cons, List.append_assoc, List.singleton_append]

end Enumeration

/-- The signatures are all that the enumeration within the bounds has to give, and it gives them in this
    order. -/
structure Bounds.Enumerated (bounds : Bounds) (signatures : List Signature) : Prop where
  /-- The candidates are enumerated and nothing else is. -/
  mem_iff : ∀ offsets : List Nat, offsets ∈ signatures.map (·.offsets) ↔
    offsets ≠ [] ∧ offsets.Pairwise (· < ·) ∧ (∀ o ∈ offsets.head?, o < bounds.shortest)
      ∧ (∀ o ∈ offsets, o < bounds.longest)
      ∧ offsets.length ≤ max (bounds.longest - bounds.shortest + 1) (min 2 bounds.longest)
  nodup : (signatures.map (·.offsets)).Nodup
  /-- Fewer offsets come first, and lists of one size stand in lexicographic order. -/
  ordered : (signatures.map (·.offsets)).Pairwise (Shortlex (· < ·))
  /-- Calls give the signatures one after the other. -/
  take_eq : ∀ calls, ((Enumeration.start bounds).take calls).1 = signatures.take calls
  /-- After the last signature there is none, however often one is asked for. -/
  next_eq_none : ∀ calls, signatures.length ≤ calls →
    ((Enumeration.start bounds).take calls).2.next? = none
  /-- In machine words each signature leads to the next, and the last one to none, without a sum that is
      no machine word or an index outside the array. -/
  wordSuccessor_eq : ∀ index signature, signatures[index]? = some signature →
    bounds.wordSuccessor signature.offsets = .ok (signatures[index + 1]?.map (·.offsets))

/-- For all word lengths that keyword sets can have, the enumeration goes through exactly the
    candidates, in their order and each once, and then ends for good. -/
theorem enumeration_complete {shortest longest : Nat} (shortest_pos : 0 < shortest)
    (shortest_le : shortest ≤ longest) (longest_lt : longest < wordLimit) :
    ∃ bounds signatures, Bounds.ofLengths shortest longest = .ok bounds
      ∧ bounds.shortest = shortest ∧ bounds.longest = longest
      ∧ bounds.Enumerated signatures := by
  let bounds : Bounds := ⟨shortest, longest, shortest_pos, shortest_le⟩
  have mem_signatures : ∀ offsets, offsets ∈ (Candidate.first bounds).onwards.map (·.offsets)
      ↔ bounds.Admits offsets := by
    intro offsets
    rw [Candidate.mem_onwards]
    exact ⟨And.left, fun admitted => ⟨admitted, Bounds.first_least admitted⟩⟩
  have ordered := (Candidate.first bounds).pairwise_onwards
  refine ⟨bounds, (Candidate.first bounds).onwards, dif_pos ⟨shortest_pos, shortest_le⟩, rfl, rfl, ?_⟩
  constructor
  · intro offsets
    rw [mem_signatures, min_comm]
    constructor
    · intro admitted
      exact ⟨admitted.ne_nil, admitted.increasing, admitted.head_lt, admitted.all_lt,
        admitted.length_le⟩
    · rintro ⟨ne_nil, increasing, head_lt, all_lt, length_le⟩
      exact ⟨ne_nil, increasing, head_lt, all_lt, length_le⟩
  · apply ordered.imp
    rintro a b less rfl
    exact asymm less less
  · exact ordered
  · intro calls
    exact (Enumeration.takeAfter_eq calls [] _).1
  · intro calls length_le
    rw [Enumeration.next?_eq_none_iff]
    have left_eq := (Enumeration.takeAfter_eq calls [] (.start bounds)).2
    exact left_eq.trans (List.drop_eq_nil_of_le length_le)
  · intro index signature h
    exact Candidate.wordSuccessor_onwards longest_lt h

/-- Words of two and three characters. -/
theorem enumeration_complete_two_three :
    0 < 2 ∧ 2 ≤ 3 ∧ 3 < wordLimit ∧ ∃ bounds signatures, Bounds.ofLengths 2 3 = .ok bounds
      ∧ bounds.shortest = 2 ∧ bounds.longest = 3 ∧ bounds.Enumerated signatures :=
  ⟨by decide, by decide, by decide, enumeration_complete (by decide) (by decide) (by decide)⟩

end KeywordHash
