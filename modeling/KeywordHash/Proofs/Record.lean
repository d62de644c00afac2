/-
Module: KeywordHash.Proofs.Record
Layer: Proofs
Purpose: Checks for repeated keys go through a list with a record of the keys before. What such a check
  establishes of the list that is left (`Fresh`) is passed on from element to element, and for the empty
  record it says that no key occurs twice. A check that ends early has met the first repetition in the list
  (`FirstRepetition`).
Imports: none
Trusted boundary: none
Main exports: Fresh, fresh_nil, fresh_cons_iff, fresh_iff_nodup, FirstRepetition, firstRepetition_append,
  FirstRepetition.not_nodup
Open obligations: none
-/

namespace KeywordHash

variable {α β κ : Type} [BEq κ] {key : α → κ} {seen : List (κ × β)}

/-- No key of the list is on record, and none occurs twice in the list. -/
structure Fresh (key : α → κ) (seen : List (κ × β)) (list : List α) : Prop where
  unseen : ∀ a ∈ list, seen.lookup (key a) = none
  nodup : (list.map key).Nodup

theorem fresh_nil : Fresh key seen [] where
  unseen := by simp
  nodup := by simp

/-- The keys of a list are fresh if the first one is not on record and the others are fresh once it is. -/
theorem fresh_cons_iff [LawfulBEq κ] {a : α} {b : β} {rest : List α} :
    Fresh key seen (a :: rest) ↔
      seen.lookup (key a) = none ∧ Fresh key ((key a, b) :: seen) rest := by
  constructor
  · rintro ⟨unseen, nodup⟩
    rw [List.forall_mem_cons] at unseen
    rw [List.map_cons, List.nodup_cons] at nodup
    refine ⟨unseen.1, ?_, nodup.2⟩
    intro c hc
    have differs : key c ≠ key a := fun same => nodup.1 (same ▸ List.mem_map_of_mem hc)
    rw [List.lookup_cons, beq_eq_false_iff_ne.2 differs]
    exact unseen.2 c hc
  · rintro ⟨first, unseen, nodup⟩
    have behind : ∀ c ∈ rest, key c ≠ key a ∧ seen.lookup (key c) = none := by
      intro c hc
      have := unseen c hc
      rw [List.lookup_cons] at this
      split at this
      · cases this
      · next differs => exact ⟨beq_eq_false_iff_ne.1 differs, this⟩
    constructor
    · exact List.forall_mem_cons.2 ⟨first, fun c hc => (behind c hc).2⟩
    · rw [List.map_cons, List.nodup_cons]
      refine ⟨?_, nodup⟩
      intro repeated
      obtain ⟨c, hc, same⟩ := List.mem_map.1 repeated
      exact (behind c hc).1 same

/-- With nothing on record it only matters that no key occurs twice. -/
theorem fresh_iff_nodup {list : List α} :
    Fresh key ([] : List (κ × β)) list ↔ (list.map key).Nodup :=
  ⟨Fresh.nodup, fun nodup => ⟨fun _ _ => rfl, nodup⟩⟩

/-- The least index at which a list has an element that occurs in front of it, and the only place where it
    does so. -/
structure FirstRepetition (list : List α) (index earlier : Nat) : Prop where
  lt : earlier < index
  index_lt : index < list.length
  same : list[earlier]? = list[index]?
  least : ∀ {i j}, i < j → j < list.length → list[i]? = list[j]? → index ≤ j
  only : ∀ {i}, i < index → list[i]? = list[index]? → i = earlier

/-- The first element that occurs in front of it is the first repetition, whatever comes behind. -/
theorem firstRepetition_append {front rest : List α} {a : α} {earlier : Nat} (nodup : front.Nodup)
    (h : front[earlier]? = some a) : FirstRepetition (front ++ a :: rest) front.length earlier := by
  have earlier_lt : earlier < front.length := (List.getElem?_eq_some_iff.1 h).1
  have at_index : (front ++ a :: rest)[front.length]? = some a := by simp
  have in_front : ∀ {i}, i < front.length → (front ++ a :: rest)[i]? = front[i]? :=
    fun i_lt => List.getElem?_append_left i_lt
  constructor
  case lt => exact earlier_lt
  case index_lt => simp
  case same => rw [in_front earlier_lt, h, at_index]
  case least =>
    intro i j lt _ same
    apply Nat.not_lt.1
    intro j_lt
    have i_lt : i < front.length := Nat.lt_trans lt j_lt
    rw [in_front i_lt, in_front j_lt] at same
    exact Nat.ne_of_lt lt ((List.getElem?_inj i_lt nodup).1 same)
  case only =>
    intro i i_lt same
    rw [in_front i_lt, at_index, ← h] at same
    exact (List.getElem?_inj i_lt nodup).1 same

/-- A list with a first repetition has an element twice. -/
theorem FirstRepetition.not_nodup {list : List α} {index earlier : Nat}
    (first : FirstRepetition list index earlier) : ¬ list.Nodup := by
  intro nodup
  have earlier_lt : earlier < list.length := Nat.lt_trans first.lt first.index_lt
  exact Nat.ne_of_lt first.lt ((List.getElem?_inj earlier_lt nodup).1 first.same)

end KeywordHash
