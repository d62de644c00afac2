/-
Module: KeywordHash.Proofs.Assignment.Convergence
Layer: Proofs
Purpose: Attempts at one offset that tells all keywords apart come to an end (`success_of_assignFrom`).
  Each sample is a single character then, and all characters are sampled equally often, so of two that
  collide the one with the smaller code is raised. A sample is pushed past samples with greater
  characters only: its hash exceeds the longest length by no more than the number of these (`Progress`).
  The hashes together grow by one with each adjustment, which bounds the number of adjustments.
Imports: KeywordHash.Proofs.Assignment, KeywordHash.Proofs.Values.Collision,
  Mathlib.Algebra.BigOperators.Ring.Finset, Mathlib.Data.List.Nodup,
  Mathlib.Data.Nat.Choose.Basic
Trusted boundary: none
Main exports: sum_countP_lt, Separated, Progress, Progress.adjustments_le, Progress.bump,
  Progress.next, success_of_assignFrom
Open obligations: none
-/
import KeywordHash.Proofs.Assignment
import KeywordHash.Proofs.Values.Collision
import Mathlib.Algebra.BigOperators.Ring.Finset
import Mathlib.Data.List.Nodup
import Mathlib.Data.Nat.Choose.Basic

namespace KeywordHash

/-! ### Counting the greater elements of a list -/

section

variable {α : Type} {list : List α}

/-- A test that holds wherever another does, and for one more element, holds more often. -/
theorem countP_lt_countP {p q : α → Bool} (imp : ∀ a, p a → q a) {a : α} (ha : a ∈ list)
    (fails : ¬ p a) (holds : q a) : list.countP p < list.countP q := by
  obtain ⟨before, after, rfl⟩ := List.append_of_mem ha
  rw [List.countP_append, List.countP_append, List.countP_cons_of_neg fails,
    List.countP_cons_of_pos holds]
  have before_le : before.countP p ≤ before.countP q := List.countP_mono_left fun b _ => imp b
  have after_le : after.countP p ≤ after.countP q := List.countP_mono_left fun b _ => imp b
  omega

theorem sum_countP_cons (test : α → α → Bool) (a : α) (others : List α) :
    (list.map fun b => (a :: others).countP (test b)).sum
      = (list.map fun b => others.countP (test b)).sum + list.countP (test · a) := by
  induction list with
  | nil => rfl
  | cons b rest ih =>
      rw [List.map_cons, List.sum_cons, ih, List.map_cons, List.sum_cons, List.countP_cons,
        List.countP_cons]
      omega

/-- In a list with distinct keys each two elements have one of them with the greater key, so the numbers
    of greater elements add up to the number of pairs. -/
theorem sum_countP_lt {key : α → UInt8} (nodup : (list.map key).Nodup) :
    (list.map fun a => list.countP (key a < key ·)).sum = list.length * (list.length - 1) / 2 := by
  induction list with
  | nil => simp
  | cons a rest ih =>
      rw [List.map_cons, List.nodup_cons] at nodup
      have others : rest.countP (key a < key ·) + rest.countP (key · < key a) = rest.length := by
        rw [List.length_eq_countP_add_countP (key a < key ·)]
        congr 1
        apply List.countP_congr
        intro b hb
        have differs : key b ≠ key a := fun same => nodup.1 (same ▸ List.mem_map_of_mem hb)
        simp only [decide_eq_true_eq, UInt8.not_lt]
        exact ⟨fun less => UInt8.le_of_lt less, fun le => UInt8.lt_of_le_of_ne le differs⟩
      rw [List.map_cons, List.sum_cons, List.countP_cons_of_neg (by simp), sum_countP_cons,
        ih nodup.2, List.length_cons, Nat.triangle_succ]
      omega

end

/-! ### Samples of one character -/

/-- The first character of a sample. -/
def Sample.head (sample : Sample) : UInt8 :=
  sample.characters.headD 0

/-- Each sample is a single character, and no two of them are the same. -/
structure Separated (samples : List Sample) : Prop where
  single : ∀ sample ∈ samples, sample.characters = [sample.head]
  nodup : (samples.map Sample.head).Nodup

namespace Separated

variable {samples : List Sample}

/-- The sampled characters are the heads of the samples. -/
theorem flatMap_characters (separated : Separated samples) :
    samples.flatMap (·.characters) = samples.map Sample.head := by
  rw [List.map_eq_flatMap]
  exact List.flatMap_congr separated.single

/-- Every character is sampled once. -/
theorem count_head (separated : Separated samples) {sample : Sample} (h : sample ∈ samples) :
    (samples.flatMap (·.characters)).count sample.head = 1 := by
  rw [separated.flatMap_characters]
  exact List.count_eq_one_of_mem separated.nodup (List.mem_map_of_mem h)

/-- A sample is told by its character. -/
theorem eq_of_head_eq (separated : Separated samples) {first second : Sample}
    (hFirst : first ∈ samples) (hSecond : second ∈ samples) (same : first.head = second.head) :
    first = second :=
  List.inj_on_of_nodup_map separated.nodup hFirst hSecond same

/-- There are no more samples than ASCII characters. -/
theorem length_le (separated : Separated samples)
    (ascii : ∀ sample ∈ samples, ∀ c ∈ sample.characters, c.toNat < asciiCount) :
    samples.length ≤ asciiCount := by
  have codes_nodup : ((samples.map Sample.head).map UInt8.toNat).Nodup :=
    separated.nodup.map fun _ _ same => UInt8.toNat_inj.1 same
  have codes_lt : (samples.map Sample.head).map UInt8.toNat ⊆ List.range asciiCount := by
    intro code hCode
    obtain ⟨head, hHead, rfl⟩ := List.mem_map.1 hCode
    obtain ⟨sample, hSample, rfl⟩ := List.mem_map.1 hHead
    have isSampled : sample.head ∈ sample.characters := by
      rw [separated.single sample hSample]
      exact List.mem_singleton_self _
    exact List.mem_range.2 (ascii sample hSample _ isSampled)
  have codes_le := (List.subperm_of_subset codes_nodup codes_lt).length_le
  rwa [List.length_map, List.length_map, List.length_range] at codes_le

/-- Colliding samples have different characters. -/
theorem head_ne (separated : Separated samples) {values : AssociatedValues} {keyword owner : Nat}
    {later earlier : Sample} (colliding : Colliding values samples keyword owner later earlier) :
    later.head ≠ earlier.head := by
  have keyword_lt : keyword < (samples.map Sample.head).length := by
    rw [List.length_map]
    exact (List.getElem?_eq_some_iff.1 colliding.later_eq).1
  have heads_ne := List.nodup_iff_getElem?_ne_getElem?.1 separated.nodup owner keyword
    colliding.owner_lt keyword_lt
  rw [List.getElem?_map, List.getElem?_map, colliding.later_eq, colliding.earlier_eq,
    Option.map_some, Option.map_some] at heads_ne
  exact fun same => heads_ne (congrArg some same.symm)

end Separated

/-- Of two characters that are sampled equally often, the one with the smaller code is preferred. -/
theorem Occurrence.candidates_singletons {occurrence : Occurrence} {a b : UInt8}
    (equal : occurrence.get a = occurrence.get b) (differ : a ≠ b) :
    occurrence.candidates [a] [b] = if a < b then [a, b] else [b, a] := by
  have rank_lt : occurrence.rank a < occurrence.rank b ↔ a < b := by
    rw [rank, rank, equal, UInt8.lt_iff_toNat_lt]
    omega
  have candidates_eq : occurrence.candidates [a] [b] = occurrence.insertByRank a [b] := by
    simp [candidates, differ, differ.symm, insertByRank]
  rw [candidates_eq, insertByRank]
  simp only [rank_lt, if_neg differ, insertByRank]

/-! ### Progress -/

/-- Raising a character adds to all hashes together how often the character was sampled. -/
theorem sum_hash_bump {values bumped : AssociatedValues} {c : UInt8} {samples : List Sample}
    (h : values.bump c = .ok bumped) :
    (samples.map (·.hash bumped)).sum
      = (samples.map (·.hash values)).sum + (samples.flatMap (·.characters)).count c := by
  induction samples with
  | nil => rfl
  | cons sample rest ih =>
      rw [List.map_cons, List.sum_cons, ih, Sample.hash_bump h, List.map_cons, List.sum_cons,
        List.flatMap_cons, List.count_append]
      omega

/-- The number of samples with a greater character. -/
def ahead (samples : List Sample) (sample : Sample) : Nat :=
  samples.countP (sample.head < ·.head)

/-- How far an attempt has come at samples of one character, of words that are no longer than the given
    length. -/
structure Progress (samples : List Sample) (longest : Nat) (values : AssociatedValues)
    (adjustments : Nat) : Prop where
  /-- A sample is pushed past samples with greater characters only. -/
  hash_le : ∀ sample ∈ samples, sample.hash values ≤ (longest + ahead samples sample : Nat)
  total_eq : (samples.map (·.hash values)).sum = ((samples.map (·.length)).sum + adjustments : Nat)

namespace Progress

variable {samples : List Sample} {longest adjustments : Nat} {values : AssociatedValues}

/-- An attempt begins with values that are all zero. -/
theorem start (ascii : ∀ sample ∈ samples, ∀ c ∈ sample.characters, c.toNat < asciiCount)
    (length_le : ∀ sample ∈ samples, sample.length ≤ longest) :
    Progress samples longest (.constant 0) 0 where
  hash_le := by
    intro sample hSample
    rw [Sample.hash_constant_zero (ascii sample hSample)]
    exact Int.ofNat_le.2 (Nat.le_add_right_of_le (length_le sample hSample))
  total_eq := by
    have hashes_eq : samples.map (·.hash (.constant 0))
        = samples.map fun sample => (sample.length : Int) :=
      List.map_congr_left fun sample hSample => Sample.hash_constant_zero (ascii sample hSample)
    rw [hashes_eq, Nat.add_zero, Nat.cast_list_sum, List.map_map]
    rfl

/-- All hashes together are bounded, and grow by one with each adjustment. So there are no more adjustments
    than there is room for hashes to grow. -/
theorem adjustments_le (separated : Separated samples)
    (progress : Progress samples longest values adjustments) {shortest : Nat}
    (le_length : ∀ sample ∈ samples, shortest ≤ sample.length) :
    adjustments
      ≤ samples.length * (longest - shortest) + samples.length * (samples.length - 1) / 2 := by
  have hashes_le : (samples.map (·.hash values)).sum
      ≤ (samples.map fun sample => ((longest + ahead samples sample : Nat) : Int)).sum :=
    List.sum_le_sum progress.hash_le
  have room_eq : (samples.map fun sample => longest + ahead samples sample).sum
      = samples.length * longest + samples.length * (samples.length - 1) / 2 := by
    have pairs := sum_countP_lt separated.nodup
    rw [List.sum_map_add, List.map_const', List.sum_replicate, Nat.nsmul_eq_mul]
    exact congrArg _ pairs
  have lengths_ge : samples.length * shortest ≤ (samples.map (·.length)).sum := by
    have := List.card_nsmul_le_sum (samples.map (·.length)) shortest (by simpa using le_length)
    rwa [List.length_map, Nat.nsmul_eq_mul] at this
  rw [progress.total_eq] at hashes_le
  have total_le : (samples.map (·.length)).sum + adjustments
      ≤ (samples.map fun sample => longest + ahead samples sample).sum := by
    rw [← Int.ofNat_le, Nat.cast_list_sum, List.map_map]
    exact hashes_le
  rw [room_eq] at total_le
  rw [Nat.mul_sub]
  omega

/-- The smaller character of two colliding samples is raised past the greater one only. -/
theorem bump (separated : Separated samples) (progress : Progress samples longest values adjustments)
    {low high : Sample}
    (hLow : low ∈ samples) (hHigh : high ∈ samples) (less : low.head < high.head)
    (collide : low.hash values = high.hash values) {bumped : AssociatedValues}
    (hBump : values.bump low.head = .ok bumped) :
    Progress samples longest bumped (adjustments + 1) where
  hash_le := by
    intro sample hSample
    rw [Sample.hash_bump hBump, separated.single sample hSample, List.count_singleton]
    by_cases same : sample.head = low.head
    · have passed : ahead samples high < ahead samples low := by
        apply countP_lt_countP _ hHigh
        · simp
        · simpa using less
        · intro other greater
          simp only [decide_eq_true_eq] at greater ⊢
          exact UInt8.lt_trans less greater
      have high_le := progress.hash_le high hHigh
      rw [separated.eq_of_head_eq hSample hLow same, collide]
      simp only [beq_self_eq_true, if_true]
      omega
    · have hash_le := progress.hash_le sample hSample
      rw [if_neg (by simpa using same)]
      omega
  total_eq := by
    rw [sum_hash_bump hBump, separated.count_head hLow, progress.total_eq]
    omega

/-- Of two samples that collide, the one with the smaller character has this character raised. -/
theorem next (separated : Separated samples) (progress : Progress samples longest values adjustments)
    {occurrence : Occurrence} (hOccurrence : Occurrence.ofSamples samples = .ok occurrence)
    {keyword owner : Nat} (hHash : hashAll values samples = .ok (.collision keyword owner)) :
    ∃ target others,
      occurrence.candidates (charactersAt samples keyword) (charactersAt samples owner)
          = target :: others
        ∧ ∀ bumped, values.bump target = .ok bumped →
            Progress samples longest bumped (adjustments + 1) := by
  obtain ⟨later, earlier, colliding⟩ := colliding_of_hashAll hHash
  have hLater := List.mem_of_getElem? colliding.later_eq
  have hEarlier := List.mem_of_getElem? colliding.earlier_eq
  have sampledOnce : ∀ {sample}, sample ∈ samples → occurrence.get sample.head = 1 := fun h => by
    rw [Occurrence.get_ofSamples hOccurrence, separated.count_head h]
  have heads_ne := separated.head_ne colliding
  have laterCharacters : charactersAt samples keyword = [later.head] := by
    rw [charactersAt, colliding.later_eq]
    exact separated.single later hLater
  have earlierCharacters : charactersAt samples owner = [earlier.head] := by
    rw [charactersAt, colliding.earlier_eq]
    exact separated.single earlier hEarlier
  rw [laterCharacters, earlierCharacters, Occurrence.candidates_singletons
    ((sampledOnce hLater).trans (sampledOnce hEarlier).symm) heads_ne]
  by_cases less : later.head < earlier.head
  · rw [if_pos less]
    exact ⟨_, _, rfl, fun bumped hBump =>
      progress.bump separated hLater hEarlier less colliding.hash_eq hBump⟩
  · have greater : earlier.head < later.head :=
      UInt8.lt_of_le_of_ne (UInt8.not_lt.1 less) heads_ne.symm
    rw [if_neg less]
    exact ⟨_, _, rfl, fun bumped hBump =>
      progress.bump separated hEarlier hLater greater colliding.hash_eq.symm hBump⟩

end Progress

/-- An attempt that does not fault succeeds before the tries are used up. The induction is on the tries that
    are left; each of them makes progress, of which there is only so much. -/
theorem success_of_assignFrom {samples : List Sample} {occurrence : Occurrence}
    {shortest longest maxTries tries adjustments : Nat} {values : AssociatedValues}
    {assignment : Assignment} (separated : Separated samples)
    (hOccurrence : Occurrence.ofSamples samples = .ok occurrence)
    (le_length : ∀ sample ∈ samples, shortest ≤ sample.length)
    (progress : Progress samples longest values adjustments)
    (budget : samples.length * (longest - shortest) + samples.length * (samples.length - 1) / 2
      < adjustments + tries)
    (h : assignFrom samples occurrence maxTries tries values adjustments = .ok assignment) :
    ∃ final table count, assignment = .success final table count
      ∧ count ≤ samples.length * (longest - shortest)
        + samples.length * (samples.length - 1) / 2 := by
  have adjustments_le := progress.adjustments_le separated le_length
  induction tries generalizing values adjustments with
  | zero => omega
  | succ tries ih =>
      rw [assignFrom] at h
      split at h
      · cases h
      · cases h
        exact ⟨_, _, _, rfl, adjustments_le⟩
      · next keyword owner hHash =>
          obtain ⟨target, others, hCandidates, raised⟩ :=
            progress.next separated hOccurrence hHash
          rw [hCandidates] at h
          dsimp only at h
          split at h
          · cases h
          · next bumped hBump =>
              have further := raised bumped hBump
              exact ih further (by omega) h (further.adjustments_le separated le_length)

end KeywordHash
