/-
Module: KeywordHash.Proofs.Signature.Shortlex
Layer: Proofs
Purpose: The successor of an offset list is the next candidate in the order of the enumeration, which
  puts shorter lists first and orders lists of one size lexicographically. A successor comes later
  (`shortlex_successor`), and no candidate lies between a list and its successor (`successor_least`), so
  the walk from successor to successor leaves out none.
Imports: KeywordHash.Signature.Successor, Mathlib.Data.List.Shortlex
Trusted boundary: none
Main exports: shortlex_trans, Bounds.shortlex_successor, Bounds.successor_least, Bounds.first_least
Open obligations: none
-/
import KeywordHash.Signature.Successor
import Mathlib.Data.List.Shortlex

namespace KeywordHash

open List (Shortlex)

theorem shortlex_trans {a b c : List Nat} (hab : Shortlex (· < ·) a b)
    (hbc : Shortlex (· < ·) b c) : Shortlex (· < ·) a c := by
  rw [List.shortlex_def] at hab hbc ⊢
  rcases hab with shorter | ⟨length_eq, less⟩
  · rcases hbc with shorter' | ⟨length_eq', _⟩
    · exact Or.inl (Nat.lt_trans shorter shorter')
    · exact Or.inl (length_eq' ▸ shorter)
  · rcases hbc with shorter' | ⟨length_eq', less'⟩
    · exact Or.inl (length_eq ▸ shorter')
    · exact Or.inr ⟨length_eq.trans length_eq', List.lex_trans Nat.lt_trans less less'⟩

/-! ### Packed lists are least -/

/-- Among the increasing lists of one size whose offsets are not below a bound, the one that is packed
    from the bound on comes first. -/
theorem range'_least {start : Nat} {offsets : List Nat} (increasing : offsets.Pairwise (· < ·))
    (above : ∀ o ∈ offsets, start ≤ o) :
    List.range' start offsets.length = offsets
      ∨ List.Lex (· < ·) (List.range' start offsets.length) offsets := by
  induction offsets generalizing start with
  | nil => exact Or.inl rfl
  | cons o rest ih =>
      obtain ⟨o_lt, restIncreasing⟩ := List.pairwise_cons.1 increasing
      rw [List.length_cons, List.range'_succ]
      rcases Nat.eq_or_lt_of_le (above o List.mem_cons_self) with rfl | later
      · rcases ih restIncreasing o_lt with same | less
        · exact Or.inl (congrArg (start :: ·) same)
        · exact Or.inr (.cons less)
      · exact Or.inr (.rel later)

/-- A packed list behind an offset does not come behind an increasing list that begins further up. -/
theorem range'_least_of_lt {o p : Nat} {others : List Nat} (o_lt : o < p)
    (increasing : (p :: others).Pairwise (· < ·)) :
    List.range' (o + 1) (others.length + 1) = p :: others
      ∨ List.Lex (· < ·) (List.range' (o + 1) (others.length + 1)) (p :: others) := by
  apply range'_least increasing
  intro x hx
  rcases List.mem_cons.1 hx with rfl | hx
  · exact o_lt
  · exact Nat.lt_trans o_lt ((List.pairwise_cons.1 increasing).1 x hx)

/-- An increasing list below a limit leaves room for its own size. -/
theorem add_length_lt {limit o : Nat} {rest : List Nat} (increasing : (o :: rest).Pairwise (· < ·))
    (below : ∀ x ∈ o :: rest, x < limit) : o + rest.length < limit := by
  induction rest generalizing o with
  | nil => exact below o List.mem_cons_self
  | cons p rest ih =>
      obtain ⟨o_lt, restIncreasing⟩ := List.pairwise_cons.1 increasing
      have room := ih restIncreasing fun x hx => below x (List.mem_cons_of_mem o hx)
      have o_lt_p := o_lt p List.mem_cons_self
      rw [List.length_cons]
      omega

/-! ### Raising an offset -/

/-- Raising leads to a later list of the same size. -/
theorem lex_raiseWithin {limit : Nat} {offsets raised : List Nat}
    (h : raiseWithin limit offsets = some raised) : List.Lex (· < ·) offsets raised := by
  induction offsets generalizing raised with
  | nil => cases h
  | cons o rest ih =>
      rw [raiseWithin] at h
      split at h
      · next raisedRest hRest =>
          cases h
          exact .cons (ih hRest)
      · split at h
        · cases h
          rw [List.range'_succ]
          exact .rel (Nat.lt_succ_self o)
        · cases h

/-- If there is a later list of the same size below the limit, an offset can be raised, and the raised
    list does not come behind the later one. -/
theorem raiseWithin_least {limit : Nat} {offsets other : List Nat}
    (length_eq : offsets.length = other.length) (increasing : other.Pairwise (· < ·))
    (below : ∀ o ∈ other, o < limit) (less : List.Lex (· < ·) offsets other) :
    ∃ raised, raiseWithin limit offsets = some raised
      ∧ (raised = other ∨ List.Lex (· < ·) raised other) := by
  induction less with
  | nil => cases length_eq
  | @rel o rest p others o_lt =>
      rw [raiseWithin]
      cases hRest : raiseWithin limit rest with
      | some raised => exact ⟨o :: raised, rfl, Or.inr (.rel o_lt)⟩
      | none =>
          have room := add_length_lt increasing below
          have rest_length : rest.length = others.length := Nat.succ.inj length_eq
          refine ⟨List.range' (o + 1) (rest.length + 1), if_pos (by omega), ?_⟩
          rw [rest_length]
          exact range'_least_of_lt o_lt increasing
  | @cons o rest others _ ih =>
      obtain ⟨raised, hRaised, order⟩ := ih (Nat.succ.inj length_eq) (List.pairwise_cons.1 increasing).2
        fun x hx => below x (List.mem_cons_of_mem o hx)
      refine ⟨o :: raised, by rw [raiseWithin, hRaised], ?_⟩
      rcases order with rfl | less
      · exact Or.inl rfl
      · exact Or.inr (.cons less)

namespace Bounds

variable {bounds : Bounds}

/-- A successor comes later in the order. -/
theorem shortlex_successor {offsets following : List Nat}
    (h : bounds.successor? offsets = some following) : Shortlex (· < ·) offsets following := by
  cases offsets with
  | nil => cases h
  | cons o rest =>
      rw [successor?] at h
      split at h
      · next raised hRaised =>
          cases h
          apply Shortlex.of_lex
          · rw [List.length_cons, List.length_cons, length_raiseWithin hRaised]
          · exact .cons (lex_raiseWithin hRaised)
      · split at h
        · cases h
          apply Shortlex.of_lex
          · rw [List.length_range', List.length_cons]
          · rw [List.range'_succ]
            exact .rel (Nat.lt_succ_self o)
        · split at h
          · cases h
            apply Shortlex.of_length_lt
            rw [List.length_range', List.length_cons]
            exact Nat.lt_succ_self _
          · cases h

/-- The packed list of a size is the first candidate of at least this size. -/
theorem packed_least (size : Nat) {offsets : List Nat} (admitted : bounds.Admits offsets)
    (size_le : size ≤ offsets.length) :
    List.range' 0 size = offsets ∨ Shortlex (· < ·) (List.range' 0 size) offsets := by
  rcases Nat.eq_or_lt_of_le size_le with rfl | larger
  · rcases range'_least admitted.increasing fun o _ => Nat.zero_le o with same | less
    · exact Or.inl same
    · exact Or.inr (Shortlex.of_lex List.length_range' less)
  · right
    apply Shortlex.of_length_lt
    rwa [List.length_range']

/-- No candidate comes before the one that samples the first character only. -/
theorem first_least {offsets : List Nat} (admitted : bounds.Admits offsets) :
    [0] = offsets ∨ Shortlex (· < ·) [0] offsets :=
  packed_least 1 admitted (List.length_pos_iff.2 admitted.ne_nil)

/-- A list with fewer offsets than a candidate has a successor that does not come behind the candidate:
    either it keeps its size, or the next size begins. -/
theorem successor_least_of_length_lt {offsets other : List Nat} (ne_nil : offsets ≠ [])
    (admitted : bounds.Admits other) (fewer : offsets.length < other.length) :
    ∃ following, bounds.successor? offsets = some following
      ∧ (following = other ∨ Shortlex (· < ·) following other) := by
  obtain ⟨o, rest, rfl⟩ := List.exists_cons_of_ne_nil ne_nil
  rw [List.length_cons] at fewer
  rw [successor?]
  cases hRest : raiseWithin bounds.longest rest with
  | some raised =>
      refine ⟨o :: raised, rfl, Or.inr (Shortlex.of_length_lt ?_)⟩
      rwa [List.length_cons, length_raiseWithin hRest]
  | none =>
      by_cases room : o + 1 < bounds.shortest ∧ o + rest.length + 1 < bounds.longest
      · refine ⟨List.range' (o + 1) (rest.length + 1), if_pos room, Or.inr ?_⟩
        apply Shortlex.of_length_lt
        rwa [List.length_range']
      · have larger := Nat.lt_of_lt_of_le fewer admitted.length_le
        refine ⟨List.range' 0 (rest.length + 2), ?_, packed_least _ admitted fewer⟩
        exact (if_neg room).trans (if_pos larger)

/-- A list that lexicographically precedes a candidate of its size has a successor that does not come
    behind the candidate. If they differ in the first offset, it is this one that can be raised, unless
    an offset behind it can. -/
theorem successor_least_of_lex {offsets other : List Nat} (admitted : bounds.Admits other)
    (length_eq : offsets.length = other.length) (less : List.Lex (· < ·) offsets other) :
    ∃ following, bounds.successor? offsets = some following
      ∧ (following = other ∨ Shortlex (· < ·) following other) := by
  have increasing := admitted.increasing
  cases less with
  | nil => cases length_eq
  | @rel o rest p others o_lt =>
      have rest_length : rest.length = others.length := Nat.succ.inj length_eq
      rw [successor?]
      cases hRest : raiseWithin bounds.longest rest with
      | some raised =>
          refine ⟨o :: raised, rfl, Or.inr (Shortlex.of_lex ?_ (.rel o_lt))⟩
          rw [List.length_cons, length_raiseWithin hRest, List.length_cons, rest_length]
      | none =>
          have p_lt : p < bounds.shortest := admitted.head_lt p rfl
          have room := add_length_lt increasing admitted.all_lt
          refine ⟨List.range' (o + 1) (rest.length + 1), if_pos ⟨by omega, by omega⟩, ?_⟩
          rw [rest_length]
          rcases range'_least_of_lt o_lt increasing with same | less
          · exact Or.inl same
          · exact Or.inr (Shortlex.of_lex List.length_range' less)
  | @cons o rest others less =>
      obtain ⟨raised, hRaised, order⟩ := raiseWithin_least (Nat.succ.inj length_eq)
        (List.pairwise_cons.1 increasing).2
        (fun x hx => admitted.all_lt x (List.mem_cons_of_mem o hx)) less
      refine ⟨o :: raised, by rw [successor?, hRaised], ?_⟩
      rcases order with rfl | less
      · exact Or.inl rfl
      · refine Or.inr (Shortlex.of_lex ?_ (.cons less))
        rw [List.length_cons, length_raiseWithin hRaised, ← length_eq, List.length_cons]

/-- If a candidate comes behind a list, the list has a successor, and the successor does not come behind
    the candidate. -/
theorem successor_least {offsets other : List Nat} (ne_nil : offsets ≠ [])
    (admitted : bounds.Admits other) (less : Shortlex (· < ·) offsets other) :
    ∃ following, bounds.successor? offsets = some following
      ∧ (following = other ∨ Shortlex (· < ·) following other) := by
  rcases List.shortlex_def.1 less with fewer | ⟨length_eq, lex⟩
  · exact successor_least_of_length_lt ne_nil admitted fewer
  · exact successor_least_of_lex admitted length_eq lex

end Bounds

end KeywordHash
