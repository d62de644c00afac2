/-
Module: KeywordHash.Proofs.Random.Source
Layer: Proofs
Purpose: What draws come to, whatever words the source gives. A number that is drawn below a bound is below
  it, also after a carry, so a choice among alternatives is one of them (`draws_choose`), and a draw of
  several parts comes to what its parts allow (`Draws.bind`). Conversely each alternative is drawn from some
  source, if there are no more of them than words (`exists_choose_eq`).
Imports: KeywordHash.Random.Source, KeywordHash.Proofs.Outcome
Trusted boundary: none
Main exports: Yields, Draws, Draws.bind, draws_below, draws_choose, exists_below_eq, exists_choose_eq
Open obligations: none
-/
import KeywordHash.Random.Source
import KeywordHash.Proofs.Outcome

namespace KeywordHash.Random

variable {σ α β : Type}

/-- Whatever source it draws from, the draw ends in one of these ways. -/
def Yields (draw : Draw σ α) (outcome : Except Fault α → Prop) : Prop :=
  ∀ source, outcome (draw.run.run source).1

/-- Whatever source it draws from, the draw comes to one of these values. -/
def Draws (draw : Draw σ α) (value : α → Prop) : Prop :=
  Yields draw fun outcome => ∃ a, outcome = .ok a ∧ value a

theorem yields_pure {outcome : Except Fault α → Prop} {a : α} (h : outcome (.ok a)) :
    Yields (pure a : Draw σ α) outcome :=
  fun _ => h

theorem draws_pure {value : α → Prop} {a : α} (h : value a) : Draws (pure a : Draw σ α) value :=
  yields_pure ⟨a, rfl, h⟩

/-- A draw in two parts ends in one of some ways if its second part does, whatever the first comes to. -/
theorem Draws.bind {first : Draw σ α} {second : α → Draw σ β} {value : α → Prop}
    {outcome : Except Fault β → Prop} (draws : Draws first value)
    (yields : ∀ a, value a → Yields (second a) outcome) : Yields (first >>= second) outcome := by
  intro source
  obtain ⟨a, hFirst, hValue⟩ := draws source
  rw [run_bind_of_ok (Prod.ext hFirst rfl)]
  exact yields a hValue _

section

variable [WordSource σ]

theorem run_word (source : σ) :
    (word : Draw σ UInt32).run.run source
      = (.ok (WordSource.next source).1, (WordSource.next source).2) :=
  rfl

theorem draws_word : Draws (word : Draw σ UInt32) (fun _ => True) :=
  fun source => ⟨_, congrArg Prod.fst (run_word source), trivial⟩

/-- The high half of the product of a word and a bound is below the bound. -/
theorem high_lt (w : UInt32) {bound : Nat} (bound_pos : 0 < bound) :
    w.toNat * bound / wordCount < bound := by
  rw [Nat.div_lt_iff_lt_mul (by decide), Nat.mul_comm]
  exact Nat.mul_lt_mul_of_pos_left w.toNat_lt bound_pos

/-- It is also below the bound with the carry, if the low half is so large that there may be one: behind the
    greatest high half the low half is not that large. -/
theorem high_succ_lt (w : UInt32) {bound : Nat}
    (low_large : wordCount - bound < w.toNat * bound % wordCount) :
    w.toNat * bound / wordCount + 1 < bound := by
  have product_le : w.toNat * bound ≤ 4294967295 * bound :=
    Nat.mul_le_mul_right bound (Nat.le_sub_one_of_lt w.toNat_lt)
  simp only [show wordCount = 4294967296 from rfl] at low_large ⊢
  omega

theorem draws_below {bound : Nat} (bound_pos : 0 < bound) :
    Draws (below bound : Draw σ Nat) (· < bound) := by
  rw [below, if_neg (Nat.ne_of_gt bound_pos)]
  refine draws_word.bind fun w _ => ?_
  dsimp only
  split
  · next low_large =>
      refine draws_word.bind fun next _ => draws_pure ?_
      split
      · exact high_succ_lt w low_large
      · exact high_lt w bound_pos
  · exact draws_pure (high_lt w bound_pos)

/-- A choice is one of the alternatives, if there are any. -/
theorem draws_choose {alternatives : Array α} (some_alternative : 0 < alternatives.size) :
    Draws (choose alternatives : Draw σ α) (· ∈ alternatives) := by
  refine (draws_below some_alternative).bind fun index index_lt => ?_
  rw [Array.getElem?_eq_getElem index_lt]
  exact draws_pure (Array.getElem_mem index_lt)

end

/-! ### What can be drawn -/

/-- The first word whose product with the bound reaches a number of words goes past it by less than the
    bound. -/
theorem exists_word_product {bound index : Nat} (index_lt : index < bound) (bound_le : bound ≤ wordCount) :
    ∃ w : UInt32, ∃ low < bound, w.toNat * bound = index * wordCount + low := by
  have bound_pos : 0 < bound := Nat.zero_lt_of_lt index_lt
  let most := index * wordCount + (bound - 1)
  have split : most / bound * bound + most % bound = most := Nat.div_add_mod' most bound
  have rest_lt : most % bound < bound := Nat.mod_lt most bound_pos
  have most_lt : most < wordCount * bound := by
    simp only [most, show wordCount = 4294967296 from rfl] at bound_le ⊢
    omega
  have w_lt : most / bound < UInt32.size := (Nat.div_lt_iff_lt_mul bound_pos).2 most_lt
  refine ⟨UInt32.ofNatLT (most / bound) w_lt, bound - 1 - most % bound, by omega, ?_⟩
  rw [UInt32.toNat_ofNatLT]
  omega

/-- Every number below the bound is drawn from some source, if no more numbers are below it than there are
    words. The word behind the first one is zero, so that it does not carry. -/
theorem exists_below_eq {bound index : Nat} (index_lt : index < bound) (bound_le : bound ≤ wordCount) :
    ∃ source : Replay, ((below bound : Draw Replay Nat).run.run source).1 = .ok index := by
  obtain ⟨w, low, low_lt, product_eq⟩ := exists_word_product index_lt bound_le
  have low_lt_wordCount : low < wordCount := Nat.lt_of_lt_of_le low_lt bound_le
  have high_eq : w.toNat * bound / wordCount = index := by
    rw [product_eq, Nat.mul_comm, Nat.mul_add_div (by decide), Nat.div_eq_of_lt low_lt_wordCount,
      Nat.add_zero]
  have low_eq : w.toNat * bound % wordCount = low := by
    rw [product_eq, Nat.mul_comm, Nat.mul_add_mod, Nat.mod_eq_of_lt low_lt_wordCount]
  let source : Replay := { words := #[w, 0] }
  have first_word : (WordSource.next source).1 = w := rfl
  have second_word : (WordSource.next (WordSource.next source).2).1 = 0 := rfl
  refine ⟨source, ?_⟩
  rw [below, if_neg (Nat.ne_of_gt (Nat.zero_lt_of_lt index_lt)), run_bind_of_ok (run_word _)]
  dsimp only
  rw [first_word, high_eq, low_eq]
  split
  · rw [run_bind_of_ok (run_word _), second_word, UInt32.toNat_zero, Nat.zero_mul, Nat.zero_div,
      Nat.add_zero, if_neg (Nat.not_le.2 low_lt_wordCount)]
    rfl
  · rfl

/-- Every alternative is drawn from some source, if there are no more of them than words. -/
theorem exists_choose_eq {alternatives : Array α} {a : α} (h : a ∈ alternatives)
    (few : alternatives.size ≤ wordCount) :
    ∃ source : Replay, ((choose alternatives : Draw Replay α).run.run source).1 = .ok a := by
  obtain ⟨index, hIndex⟩ := Array.getElem?_of_mem h
  obtain ⟨index_lt, _⟩ := Array.getElem?_eq_some_iff.1 hIndex
  obtain ⟨source, hBelow⟩ := exists_below_eq index_lt few
  refine ⟨source, ?_⟩
  rw [choose, run_bind_of_ok (Prod.ext hBelow rfl), hIndex]
  rfl

end KeywordHash.Random
