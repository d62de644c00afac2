/-
Module: KeywordHash.Proofs.Program.Lengths
Layer: Proofs
Purpose: Which word lengths the arms of a program take, and what they add for them (`lengthArms_partition`).
  An arm is for the words that reach its first offset and none of the greater ones, so no two arms take
  one length, and the offsets of an arm are those within each of its words. This is said of the patterns
  as they are written: a pattern is one length, a least one, or a least and a greatest one (`Takes`), and
  its text tells which.
Imports: KeywordHash.Proofs.Program.Arms, KeywordHash.Proofs.Text.Delimited,
  KeywordHash.Program.Source
Trusted boundary: none
Main exports: Takes, takes_pattern_iff, mem_armsBelow, pairwise_armsBelow, mem_lengthArms,
  exists_covers, offsets_of_covers, exists_covers_iff, mapM_offsets_of_covers, lengthArms_partition
Open obligations: none
-/
import KeywordHash.Proofs.Program.Arms
import KeywordHash.Proofs.Text.Delimited
import KeywordHash.Program.Source

namespace KeywordHash

/-! ### Patterns as they are written -/

/-- The lengths that the text of a pattern takes. A pattern is one length, or a least one with dots behind
    it, which an equals sign and the greatest length may follow. Both ends belong to the pattern. -/
inductive Takes : String → Nat → Prop where
  | one (length : Nat) : Takes s!"{length}" length
  | onwards {shortest length : Nat} (reached : shortest ≤ length) : Takes s!"{shortest}.." length
  | between {shortest longest length : Nat} (reached : shortest ≤ length) (within : length ≤ longest) :
      Takes s!"{shortest}..={longest}" length

theorem toList_dots : (toString "..").toList = ['.', '.'] := rfl

theorem toList_dotsEqual : (toString "..=").toList = ['.', '.', '='] := rfl

/-- Texts that begin with a number, behind which there is a dot or nothing, are the same only if the numbers
    and what is behind them are. -/
theorem number_append_inj {n n' : Nat} {tail tail' : List Char} (stop : ∀ c ∈ tail.head?, c = '.')
    (stop' : ∀ c ∈ tail'.head?, c = '.')
    (same : (Nat.repr n).toList ++ tail = (Nat.repr n').toList ++ tail') : n = n' ∧ tail = tail' := by
  have digits : ∀ n : Nat, ∀ c ∈ (Nat.repr n).toList, decide (c ≠ '.') := by
    intro n c member
    apply decide_eq_true
    rintro rfl
    exact Text.notMem_repr (by decide) n member
  obtain ⟨number_eq, tail_eq⟩ := Text.append_inj_of_span (digits n) (by simpa using stop)
    (digits n') (by simpa using stop') same
  exact ⟨Text.repr_inj (String.toList_injective number_eq), tail_eq⟩

section

variable {text : String} {first length : Nat}

/-- What is behind the first number of a text tells in which of the three ways the text is read. -/
theorem Takes.read {tail : List Char} (takes : Takes text length)
    (text_eq : text.toList = (Nat.repr first).toList ++ tail) (stop : ∀ c ∈ tail.head?, c = '.') :
    tail = [] ∧ length = first
      ∨ tail = ['.', '.'] ∧ first ≤ length
      ∨ ∃ longest, tail = '.' :: '.' :: '=' :: (Nat.repr longest).toList
        ∧ first ≤ length ∧ length ≤ longest := by
  cases takes with
  | one =>
      have same : (Nat.repr length).toList ++ [] = (Nat.repr first).toList ++ tail := by
        simpa using text_eq
      obtain ⟨rfl, rfl⟩ := number_append_inj (by simp) stop same
      exact Or.inl ⟨rfl, rfl⟩
  | @onwards shortest _ reached =>
      rw [String.toList_append, toList_dots] at text_eq
      obtain ⟨rfl, rfl⟩ := number_append_inj (by simp) stop text_eq
      exact Or.inr (Or.inl ⟨rfl, reached⟩)
  | @between shortest longest _ reached within =>
      rw [String.toList_append, String.toList_append, toList_dotsEqual, List.append_assoc] at text_eq
      obtain ⟨rfl, rfl⟩ := number_append_inj (by simp) stop text_eq
      exact Or.inr (Or.inr ⟨longest, rfl, reached, within⟩)

theorem takes_one_iff : Takes s!"{first}" length ↔ length = first := by
  constructor
  · intro takes
    have text_eq : s!"{first}".toList = (Nat.repr first).toList ++ [] := by simp
    simpa using takes.read text_eq (by simp)
  · rintro rfl
    exact .one length

theorem takes_onwards_iff : Takes s!"{first}.." length ↔ first ≤ length := by
  constructor
  · intro takes
    have text_eq : s!"{first}..".toList = (Nat.repr first).toList ++ ['.', '.'] := by
      rw [String.toList_append, toList_dots]
      rfl
    simpa using takes.read text_eq (by simp)
  · exact .onwards

theorem takes_between_iff {longest : Nat} :
    Takes s!"{first}..={longest}" length ↔ first ≤ length ∧ length ≤ longest := by
  constructor
  · intro takes
    have text_eq : s!"{first}..={longest}".toList
        = (Nat.repr first).toList ++ '.' :: '.' :: '=' :: (Nat.repr longest).toList := by
      rw [String.toList_append, String.toList_append, toList_dotsEqual, List.append_assoc]
      rfl
    rcases takes.read text_eq (by simp) with ⟨none, _⟩ | ⟨none, _⟩ | ⟨greatest, same, between⟩
    · cases none
    · cases none
    · simp only [List.cons.injEq, true_and] at same
      rw [Text.repr_inj (String.toList_injective same)]
      exact between
  · rintro ⟨reached, within⟩
    exact .between reached within

end

theorem covers_iff {arm : Arm} {length : Nat} :
    arm.covers length ↔ arm.shortest ≤ length ∧ arm.longest.all (length ≤ ·) := by
  simp [Arm.covers]

/-- The text of a pattern takes the lengths that the arm is for. -/
theorem takes_pattern_iff {arm : Arm} {length : Nat} : Takes arm.pattern length ↔ arm.covers length := by
  rw [covers_iff, Arm.pattern]
  cases arm.longest with
  | none =>
      simp only [Option.all_none, and_true]
      exact takes_onwards_iff
  | some longest =>
      simp only [Option.all_some, decide_eq_true_eq]
      by_cases single : longest = arm.shortest
      · rw [if_pos single, takes_one_iff]
        omega
      · rw [if_neg single]
        exact takes_between_iff

/-! ### The lengths of the arms -/

section

variable {longest : Option Nat} {offsets : List Nat}

/-- An arm is for the words that reach its first offset, no greater one, and not past the given length. Its
    offsets are that one and all that are smaller. -/
theorem mem_armsBelow (decreasing : offsets.Pairwise (· > ·))
    (within : ∀ offset ∈ offsets, longest.all (offset ≤ ·)) {arm : Arm}
    (h : arm ∈ armsBelow longest offsets) :
    ∃ greater offset smaller, offsets = greater ++ offset :: smaller ∧ arm.offsets = offset :: smaller
      ∧ ∀ length, arm.covers length ↔
        offset < length ∧ longest.all (length ≤ ·) ∧ ∀ other ∈ greater, length ≤ other := by
  induction offsets generalizing longest with
  | nil => cases h
  | cons first rest ih =>
      obtain ⟨below, decreasing⟩ := List.pairwise_cons.1 decreasing
      rw [armsBelow] at h
      rcases List.mem_cons.1 h with rfl | inRest
      · refine ⟨[], first, rest, rfl, rfl, ?_⟩
        intro length
        rw [covers_iff]
        constructor
        · rintro ⟨reached, upTo⟩
          exact ⟨reached, upTo, List.forall_mem_nil _⟩
        · rintro ⟨reached, upTo, _⟩
          exact ⟨reached, upTo⟩
      · have within_first : ∀ offset ∈ rest, (some first).all (offset ≤ ·) := fun offset hOffset =>
          decide_eq_true (Nat.le_of_lt (below offset hOffset))
        obtain ⟨greater, offset, smaller, rfl, offsets_eq, covers⟩ := ih decreasing within_first inRest
        refine ⟨first :: greater, offset, smaller, rfl, offsets_eq, ?_⟩
        intro length
        have first_within : length ≤ first → longest.all (length ≤ ·) := by
          intro le
          have first_le := within first List.mem_cons_self
          cases longest with
          | none => rfl
          | some greatest => exact decide_eq_true (Nat.le_trans le (of_decide_eq_true first_le))
        rw [covers, List.forall_mem_cons, Option.all_some, decide_eq_true_iff]
        constructor
        · rintro ⟨reached, le, others⟩
          exact ⟨reached, first_within le, le, others⟩
        · rintro ⟨reached, _, le, others⟩
          exact ⟨reached, le, others⟩

/-- No length is one of two arms: the words of a later arm do not reach the first offset of an earlier one. -/
theorem pairwise_armsBelow (decreasing : offsets.Pairwise (· > ·)) :
    (armsBelow longest offsets).Pairwise fun first second =>
      ∀ length, ¬ (first.covers length ∧ second.covers length) := by
  induction offsets generalizing longest with
  | nil => exact .nil
  | cons first rest ih =>
      obtain ⟨below, decreasing⟩ := List.pairwise_cons.1 decreasing
      rw [armsBelow]
      apply List.pairwise_cons.2 ⟨_, ih decreasing⟩
      rintro arm inRest length ⟨covers_first, covers_arm⟩
      have reached : first < length := (covers_iff.1 covers_first).1
      have within_first : ∀ offset ∈ rest, (some first).all (offset ≤ ·) := fun offset hOffset =>
        decide_eq_true (Nat.le_of_lt (below offset hOffset))
      obtain ⟨_, _, _, _, _, covers⟩ := mem_armsBelow decreasing within_first inRest
      exact Nat.not_le.2 reached (of_decide_eq_true ((covers length).1 covers_arm).2.1)

end

section

variable {signature : Signature} {arm : Arm} {length : Nat}

/-- The greatest offset comes first in the arms. -/
theorem decreasing_offsets (signature : Signature) : signature.offsets.reverse.Pairwise (· > ·) :=
  List.pairwise_reverse.2 signature.increasing

theorem mem_lengthArms (h : arm ∈ lengthArms signature) :
    ∃ greater offset smaller, signature.offsets.reverse = greater ++ offset :: smaller
      ∧ arm.offsets = offset :: smaller
      ∧ ∀ length, arm.covers length ↔ offset < length ∧ ∀ other ∈ greater, length ≤ other := by
  have within : ∀ offset ∈ signature.offsets.reverse, (none : Option Nat).all (offset ≤ ·) := by simp
  simpa using mem_armsBelow (decreasing_offsets signature) within h

/-- Every arm is for some length that is one past an offset. -/
theorem exists_covers (h : arm ∈ lengthArms signature) :
    ∃ offset ∈ signature.offsets, arm.covers (offset + 1) := by
  obtain ⟨greater, offset, smaller, offsets_eq, _, covers⟩ := mem_lengthArms h
  have decreasing := decreasing_offsets signature
  rw [offsets_eq] at decreasing
  refine ⟨offset, ?_, (covers _).2 ⟨Nat.lt_succ_self offset, ?_⟩⟩
  · rw [← List.mem_reverse, offsets_eq]
    exact List.mem_append_right _ List.mem_cons_self
  · intro other hOther
    exact (List.pairwise_append.1 decreasing).2.2 other hOther offset List.mem_cons_self

/-- An arm has the offsets that exist in the words that it is for, the greatest first. -/
theorem offsets_of_covers (h : arm ∈ lengthArms signature) (covers : arm.covers length) :
    arm.offsets = (signature.sampledOffsets length).reverse := by
  obtain ⟨greater, offset, smaller, offsets_eq, arm_offsets, covers_iff⟩ := mem_lengthArms h
  obtain ⟨reached, greater_ge⟩ := (covers_iff length).1 covers
  have decreasing := decreasing_offsets signature
  rw [offsets_eq] at decreasing
  obtain ⟨below, _⟩ := List.pairwise_cons.1 (List.pairwise_append.1 decreasing).2.1
  have none_greater : greater.filter (· < length) = [] := by
    simpa [List.filter_eq_nil_iff] using greater_ge
  have all_smaller : smaller.filter (· < length) = smaller := by
    apply List.filter_eq_self.2
    intro other hOther
    exact decide_eq_true (Nat.lt_trans (below other hOther) reached)
  rw [Signature.sampledOffsets, ← List.filter_reverse, offsets_eq, List.filter_append, none_greater,
    List.filter_cons_of_pos (by simpa using reached), all_smaller, arm_offsets, List.nil_append]

/-- A length belongs to an arm if a word of this length reaches an offset. -/
theorem exists_covers_iff :
    (∃ arm ∈ lengthArms signature, arm.covers length) ↔ ∃ offset ∈ signature.offsets, offset < length := by
  constructor
  · rintro ⟨arm, h, covers⟩
    obtain ⟨greater, offset, smaller, offsets_eq, _, covers_iff⟩ := mem_lengthArms h
    refine ⟨offset, ?_, ((covers_iff length).1 covers).1⟩
    rw [← List.mem_reverse, offsets_eq]
    exact List.mem_append_right _ List.mem_cons_self
  · rintro ⟨offset, hOffset, reached⟩
    have sampled : offset ∈ armOffsets (lengthArms signature) length := by
      rw [armOffsets_lengthArms, List.mem_reverse]
      exact List.mem_filter.2 ⟨hOffset, decide_eq_true reached⟩
    cases hFound : (lengthArms signature).find? (·.covers length) with
    | none => simp [armOffsets, hFound] at sampled
    | some arm =>
        have covers : arm.covers length := by simpa using List.find?_some hFound
        exact ⟨arm, List.mem_of_find?_eq_some hFound, covers⟩

/-- The characters at the offsets of an arm can be read in each of its words. They are those of the sample,
    the last one first. -/
theorem mapM_offsets_of_covers {word : List UInt8} (h : arm ∈ lengthArms signature)
    (covers : arm.covers word.length) :
    arm.offsets.mapM (word[·]?) = some (signature.realize word).reverse := by
  rw [offsets_of_covers h covers, Signature.sampledOffsets, ← List.filter_reverse, mapM_sampled,
    List.filterMap_reverse, Signature.realize]

/-- Nothing is sampled of a word that no arm is for. -/
theorem realize_of_not_covers {word : List UInt8}
    (none : ∀ arm ∈ lengthArms signature, ¬ arm.covers word.length) : signature.realize word = [] := by
  apply List.filterMap_eq_nil_iff.2
  intro offset hOffset
  apply List.getElem?_eq_none
  by_contra reached
  obtain ⟨arm, h, covers⟩ := exists_covers_iff.2 ⟨offset, hOffset, Nat.not_le.1 reached⟩
  exact none arm h covers

end

/-- The patterns of the arms of a signature, as they are written, share no length, and each of them takes a
    length that is a machine word. Some arm takes a length if and only if some offset is below it, and then
    the offsets of the arm are exactly those below the length, from the greatest down. So the arm that a word
    is taken by never reads behind its end, and a program with these arms adds the values of the characters
    that the signature samples. -/
theorem lengthArms_partition {signature : Signature}
    (offset_lt : ∀ offset ∈ signature.offsets, offset < wordLimit - 1) :
    (lengthArms signature).Pairwise (fun first second =>
        ∀ length, ¬ (Takes first.pattern length ∧ Takes second.pattern length))
      ∧ (∀ arm ∈ lengthArms signature, ∃ length < wordLimit, Takes arm.pattern length)
      ∧ (∀ length, (∃ arm ∈ lengthArms signature, Takes arm.pattern length) ↔
        ∃ offset ∈ signature.offsets, offset < length)
      ∧ (∀ arm ∈ lengthArms signature, ∀ length, Takes arm.pattern length →
        (∀ offset, offset ∈ arm.offsets ↔ offset ∈ signature.offsets ∧ offset < length)
          ∧ arm.offsets.Pairwise (· > ·))
      ∧ (∀ word : List UInt8,
        (∀ arm ∈ lengthArms signature, Takes arm.pattern word.length →
          arm.offsets = (signature.sampledOffsets word.length).reverse
            ∧ arm.offsets.mapM (word[·]?) = some (signature.realize word).reverse)
          ∧ ((∀ arm ∈ lengthArms signature, ¬ Takes arm.pattern word.length) →
            signature.realize word = []))
      ∧ ∀ program : Program, program.arms = lengthArms signature → ∀ word,
        program.hash word = some (word.length + ((signature.realize word).map program.value).sum) := by
  simp only [takes_pattern_iff]
  refine ⟨pairwise_armsBelow (decreasing_offsets signature), ?_, fun length => exists_covers_iff, ?_, ?_,
    fun program arms_eq => Program.hash_eq_some arms_eq⟩
  · intro arm h
    obtain ⟨offset, hOffset, covers⟩ := exists_covers h
    exact ⟨offset + 1, Nat.add_lt_of_lt_sub (offset_lt offset hOffset), covers⟩
  · intro arm h length covers
    rw [offsets_of_covers h covers]
    constructor
    · intro offset
      rw [List.mem_reverse, Signature.sampledOffsets, List.mem_filter, decide_eq_true_iff]
    · exact List.pairwise_reverse.2 (signature.increasing.filter _)
  · intro word
    exact ⟨fun arm h covers => ⟨offsets_of_covers h covers, mapM_offsets_of_covers h covers⟩,
      realize_of_not_covers⟩

/-- The first two characters and the fourth. -/
def gappedSignature : Signature := { offsets := [0, 1, 3], ne_nil := by decide, increasing := by decide }

/-- The greatest offset is open, between it and the next there is a range, and neighbours leave one length. -/
example : (lengthArms gappedSignature).map (fun arm => (arm.pattern, arm.offsets))
    = [("4..", [3, 1, 0]), ("2..=3", [1, 0]), ("1", [0])] := by
  decide +kernel

/-- A word of three characters is taken by the second arm, which reads two of them. -/
theorem lengthArms_gapped :
    (∀ offset ∈ gappedSignature.offsets, offset < wordLimit - 1)
      ∧ ⟨2, some 3, [1, 0]⟩ ∈ lengthArms gappedSignature
      ∧ Takes "2..=3" 3
      ∧ (∃ arm ∈ lengthArms gappedSignature, Takes arm.pattern 3)
      ∧ (∀ offset, offset ∈ [1, 0] ↔ offset ∈ gappedSignature.offsets ∧ offset < 3)
      ∧ [1, 0].mapM (([100, 101, 102] : List UInt8)[·]?) = some [101, 100] := by
  have offset_lt : ∀ offset ∈ gappedSignature.offsets, offset < wordLimit - 1 := by decide
  have member : ⟨2, some 3, [1, 0]⟩ ∈ lengthArms gappedSignature := by decide
  have takes : Takes "2..=3" 3 := @Takes.between 2 3 3 (by decide) (by decide)
  obtain ⟨_, _, exists_iff, offsets, reads, _⟩ := lengthArms_partition offset_lt
  exact ⟨offset_lt, member, takes, (exists_iff 3).2 ⟨0, by decide, by decide⟩,
    (offsets _ member 3 takes).1, ((reads [100, 101, 102]).1 _ member takes).2⟩

end KeywordHash
