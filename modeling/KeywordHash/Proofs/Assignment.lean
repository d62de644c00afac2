/-
Module: KeywordHash.Proofs.Assignment
Layer: Proofs
Purpose: How an attempt goes (`Reached`) and ends (`Ended`), try after try, and what a successful one
  leaves behind (`Assigned`). The hashes that the attempt ended with were taken before the characters
  that no keyword samples became unused; as no hash depends on these, the table lists the hashes under
  the final values as well. No attempt faults on ASCII keywords that have fewer characters than a counter
  can tell, if there are not more tries than the greatest value of a character (`exists_assign`).
Imports: KeywordHash.Assignment, KeywordHash.Proofs.Signature.Sample, KeywordHash.Proofs.Values,
  KeywordHash.Proofs.Values.Adjustment, KeywordHash.Proofs.Values.Hashing,
  KeywordHash.Proofs.Values.Occurrence, Mathlib.Algebra.Order.BigOperators.Group.List,
  Mathlib.Algebra.Order.Group.Nat, Mathlib.Algebra.Ring.Nat
Trusted boundary: none
Main exports: HashTable.Lists.owner_iff_keyword, Reached, Ended, ended_of_assign,
  adjustments_lt_of_assign, Assigned, Assigned.value_le, hash_retire_of_mem, assigned_of_assign,
  exists_assign_of_samples, sum_length_samples_le, exists_assign
Open obligations: none
-/
import KeywordHash.Assignment
import KeywordHash.Proofs.Signature.Sample
import KeywordHash.Proofs.Values
import KeywordHash.Proofs.Values.Adjustment
import KeywordHash.Proofs.Values.Hashing
import KeywordHash.Proofs.Values.Occurrence
import Mathlib.Algebra.Order.BigOperators.Group.List
import Mathlib.Algebra.Order.Group.Nat
import Mathlib.Algebra.Ring.Nat

namespace KeywordHash

/-! ### The hashes of a keyword list -/

section

variable {keywords : List Keyword} {signature : Signature} {values : AssociatedValues}

theorem getElem?_samples_eq_some_iff {index : Nat} {sample : Sample} :
    (signature.samples keywords)[index]? = some sample ↔
      ∃ keyword, keywords[index]? = some keyword ∧ signature.sample keyword.bytes = sample := by
  simp [Signature.samples]

/-- The hashes of the samples are those of the keywords. -/
theorem map_hash_samples :
    (signature.samples keywords).map (·.hash values)
      = keywords.map fun keyword => (signature.sample keyword.bytes).hash values := by
  simp [Signature.samples]

/-- A table that lists the hashes of the samples tells which keyword has a hash. -/
theorem HashTable.Lists.owner_iff_keyword {table : HashTable}
    (lists : table.Lists values (signature.samples keywords)) (hash index : Nat) :
    table.owner? hash = some index ↔ ∃ keyword, keywords[index]? = some keyword
      ∧ (signature.sample keyword.bytes).hash values = (hash : Int) := by
  simp [lists.owner_iff, getElem?_samples_eq_some_iff]

end

/-! ### The tries of an attempt -/

/-- How many tries were made, the values they lead to, and the number of adjustments. Each try so far ended
    in a collision, for which the preferred character was raised. -/
inductive Reached (samples : List Sample) (occurrence : Occurrence) :
    Nat → AssociatedValues → Nat → Prop where
  | start : Reached samples occurrence 0 (.constant 0) 0
  | next {made adjustments keyword owner : Nat} {values bumped : AssociatedValues}
      {target : UInt8} {others : List UInt8}
      (reached : Reached samples occurrence made values adjustments)
      (collision : hashAll values samples = .ok (.collision keyword owner))
      (candidates : occurrence.candidates (charactersAt samples keyword) (charactersAt samples owner)
        = target :: others)
      (bump : values.bump target = .ok bumped) :
      Reached samples occurrence (made + 1) bumped (adjustments + 1)

/-- How an attempt ends, with the state before its last try. -/
inductive Ended (samples : List Sample) (occurrence : Occurrence) (maxTries : Nat) :
    Assignment → Prop where
  | success {made adjustments : Nat} {values : AssociatedValues} {table : HashTable}
      (reached : Reached samples occurrence made values adjustments)
      (made_lt : made < maxTries)
      (distinct : hashAll values samples = .ok (.distinct table)) :
      Ended samples occurrence maxTries
        (.success (values.retire occurrence.isSampled) table adjustments)
  | unresolvable {made adjustments keyword owner : Nat} {values : AssociatedValues}
      (reached : Reached samples occurrence made values adjustments)
      (made_lt : made < maxTries)
      (collision : hashAll values samples = .ok (.collision keyword owner))
      (candidates : occurrence.candidates (charactersAt samples keyword) (charactersAt samples owner)
        = []) :
      Ended samples occurrence maxTries (.unresolvable keyword owner)
  | triesExhausted {adjustments : Nat} {values : AssociatedValues}
      (reached : Reached samples occurrence maxTries values adjustments) :
      Ended samples occurrence maxTries (.triesExhausted maxTries)

section

variable {samples : List Sample} {occurrence : Occurrence} {made adjustments maxTries : Nat}
  {values : AssociatedValues}

/-- Every try makes one adjustment. -/
theorem Reached.adjustments_eq (reached : Reached samples occurrence made values adjustments) :
    adjustments = made := by
  induction reached with
  | start => rfl
  | next _ _ _ _ ih => rw [ih]

/-- Raising stays in range. -/
theorem Reached.inRange (reached : Reached samples occurrence made values adjustments) :
    values.InRange := by
  induction reached with
  | start => exact AssociatedValues.inRange_constant
  | next _ _ _ bump ih => exact AssociatedValues.inRange_bump ih bump

/-- An attempt goes through the states that are reached. The induction is on the tries that were made. -/
theorem Reached.assignFrom_eq (reached : Reached samples occurrence made values adjustments)
    (made_le : made ≤ maxTries) :
    assignFrom samples occurrence maxTries maxTries (.constant 0) 0
      = assignFrom samples occurrence maxTries (maxTries - made) values adjustments := by
  induction reached with
  | start => rfl
  | @next made _ _ _ _ _ _ _ _ collision candidates bump ih =>
      have left_eq : maxTries - made = maxTries - (made + 1) + 1 := by omega
      rw [ih (Nat.le_of_succ_le made_le), left_eq, assignFrom, collision]
      dsimp only
      rw [candidates]
      dsimp only
      rw [bump]

/-- An attempt that goes on from a state that is reached ends in one as well. The induction is on the tries
    that are left. -/
theorem ended_of_assignFrom {tries : Nat} {assignment : Assignment}
    (reached : Reached samples occurrence made values adjustments)
    (tries_eq : made + tries = maxTries)
    (h : assignFrom samples occurrence maxTries tries values adjustments = .ok assignment) :
    Ended samples occurrence maxTries assignment := by
  induction tries generalizing made values adjustments with
  | zero =>
      cases h
      rw [Nat.add_zero] at tries_eq
      rw [tries_eq] at reached
      exact .triesExhausted reached
  | succ tries ih =>
      have made_lt : made < maxTries := by omega
      rw [assignFrom] at h
      split at h
      · cases h
      · next distinct =>
          cases h
          exact .success reached made_lt distinct
      · next collision =>
          split at h
          · next candidates =>
              cases h
              exact .unresolvable reached made_lt collision candidates
          · next candidates =>
              split at h
              · cases h
              · next bump => exact ih (reached.next collision candidates bump) (by omega) h

end

/-- An attempt that does not fault has counted what it samples, and ends after one of its tries. -/
theorem ended_of_assign {keywords : List Keyword} {signature : Signature} {maxTries : Nat}
    {assignment : Assignment} (h : assign keywords signature maxTries = .ok assignment) :
    ∃ occurrence, Occurrence.ofSamples (signature.samples keywords) = .ok occurrence
      ∧ Ended (signature.samples keywords) occurrence maxTries assignment := by
  simp only [assign] at h
  split at h
  · cases h
  · next occurrence hOccurrence =>
      exact ⟨occurrence, hOccurrence, ended_of_assignFrom .start (Nat.zero_add maxTries) h⟩

/-- Fewer adjustments are made than there are tries. -/
theorem adjustments_lt_of_assign {keywords : List Keyword} {signature : Signature}
    {maxTries adjustments : Nat} {values : AssociatedValues} {table : HashTable}
    (h : assign keywords signature maxTries = .ok (.success values table adjustments)) :
    adjustments < maxTries := by
  obtain ⟨occurrence, _, ended⟩ := ended_of_assign h
  cases ended with
  | success reached made_lt _ => rwa [reached.adjustments_eq]

/-! ### What a success leaves behind -/

/-- Values and a table that an attempt may return for the samples. -/
structure Assigned (samples : List Sample) (values : AssociatedValues) (table : HashTable) : Prop where
  lists : table.Lists values samples
  ascii : ∀ sample ∈ samples, ∀ c ∈ sample.characters, c.toNat < asciiCount
  sampled : ∀ sample ∈ samples, ∀ c ∈ sample.characters,
    0 ≤ values.get c ∧ values.get c ≤ maxValue
  unsampled : ∀ c, (∀ sample ∈ samples, c ∉ sample.characters) → values.get c = unused

/-- No value is past the greatest value of a character, sampled or not. -/
theorem Assigned.value_le {samples : List Sample} {values : AssociatedValues} {table : HashTable}
    (assigned : Assigned samples values table) (c : UInt8) : values.get c ≤ maxValue := by
  by_cases sampled : ∃ sample ∈ samples, c ∈ sample.characters
  · obtain ⟨sample, hSample, hc⟩ := sampled
    exact (assigned.sampled sample hSample c hc).2
  · have absent : ∀ sample ∈ samples, c ∉ sample.characters :=
      fun sample hSample hc => sampled ⟨sample, hSample, hc⟩
    rw [assigned.unsampled c absent]
    decide

/-- Retiring what was not sampled keeps the value of every sampled character. -/
theorem get_retire_of_mem {samples : List Sample} {occurrence : Occurrence}
    (hOccurrence : Occurrence.ofSamples samples = .ok occurrence) (values : AssociatedValues)
    {sample : Sample} (hSample : sample ∈ samples) {c : UInt8} (hc : c ∈ sample.characters) :
    (values.retire occurrence.isSampled).get c = values.get c := by
  have isSampled := (Occurrence.isSampled_iff hOccurrence).2 ⟨sample, hSample, hc⟩
  rw [AssociatedValues.get_retire, if_pos isSampled]

/-- Retiring what was not sampled changes no hash. -/
theorem hash_retire_of_mem {samples : List Sample} {occurrence : Occurrence}
    (hOccurrence : Occurrence.ofSamples samples = .ok occurrence) (values : AssociatedValues)
    {sample : Sample} (hSample : sample ∈ samples) :
    sample.hash (values.retire occurrence.isSampled) = sample.hash values :=
  Sample.hash_congr fun _ hc => get_retire_of_mem hOccurrence values hSample hc

/-- Retiring what was not sampled leaves distinct hashes and values in range behind. -/
theorem assigned_retire {samples : List Sample} {occurrence : Occurrence}
    {searched : AssociatedValues} {table : HashTable}
    (hOccurrence : Occurrence.ofSamples samples = .ok occurrence) (inRange : searched.InRange)
    (hHash : hashAll searched samples = .ok (.distinct table)) :
    Assigned samples (searched.retire occurrence.isSampled) table := by
  constructor
  · exact (lists_of_hashAll hHash).congr fun sample hSample =>
      hash_retire_of_mem hOccurrence searched hSample
  · intro sample hSample c hc
    exact Occurrence.ascii_of_ofSamples hOccurrence hSample hc
  · intro sample hSample c hc
    rw [get_retire_of_mem hOccurrence searched hSample hc]
    exact inRange c (Occurrence.ascii_of_ofSamples hOccurrence hSample hc)
  · intro c absent
    have notSampled : ¬ occurrence.isSampled c := by
      intro isSampled
      obtain ⟨sample, hSample, hc⟩ := (Occurrence.isSampled_iff hOccurrence).1 isSampled
      exact absent sample hSample hc
    rw [AssociatedValues.get_retire, if_neg notSampled]

/-- What a successful attempt for a keyword list leaves behind. -/
theorem assigned_of_assign {keywords : List Keyword} {signature : Signature}
    {maxTries adjustments : Nat} {values : AssociatedValues} {table : HashTable}
    (h : assign keywords signature maxTries = .ok (.success values table adjustments)) :
    Assigned (signature.samples keywords) values table := by
  obtain ⟨occurrence, hOccurrence, ended⟩ := ended_of_assign h
  cases ended with
  | success reached _ distinct => exact assigned_retire hOccurrence reached.inRange distinct

/-! ### Attempts that do not fault -/

/-- The candidates of a collision are characters of some sample. -/
theorem exists_sample_of_mem_candidates {samples : List Sample} {occurrence : Occurrence}
    {keyword owner : Nat} {c : UInt8}
    (hc : c ∈ occurrence.candidates (charactersAt samples keyword) (charactersAt samples owner)) :
    ∃ sample ∈ samples, c ∈ sample.characters := by
  have sampled_at : ∀ index, c ∈ charactersAt samples index →
      ∃ sample ∈ samples, c ∈ sample.characters := by
    intro index hIndex
    rw [charactersAt] at hIndex
    cases hSample : samples[index]? with
    | none =>
        rw [hSample] at hIndex
        cases hIndex
    | some sample =>
        rw [hSample] at hIndex
        exact ⟨sample, List.mem_of_getElem? hSample, hIndex⟩
  rcases Occurrence.mem_candidates_iff.1 hc with ⟨hKeyword, _⟩ | ⟨hOwner, _⟩
  · exact sampled_at keyword hKeyword
  · exact sampled_at owner hOwner

/-- What is sampled of ASCII keywords are ASCII characters. -/
theorem ascii_of_mem_samples {keywords : List Keyword} {signature : Signature}
    (ascii : ∀ keyword ∈ keywords, keyword.isAscii) :
    ∀ sample ∈ signature.samples keywords, ∀ c ∈ sample.characters, c.toNat < asciiCount := by
  intro sample hSample c hc
  obtain ⟨keyword, hKeyword, rfl⟩ := List.mem_map.1 hSample
  obtain ⟨offset, _, hByte⟩ := Signature.mem_realize_iff.1 hc
  have isAscii := List.all_eq_true.1 (ascii keyword hKeyword) c (List.mem_of_getElem? hByte)
  exact UInt8.lt_iff_toNat_lt.1 (of_decide_eq_true isAscii)

/-- No value reaches the greatest one before the tries are used up. The induction is on the tries that
    are left; each of them raises the bound on the values by one. -/
theorem exists_assignFrom {samples : List Sample} {occurrence : Occurrence}
    {maxTries tries adjustments : Nat} {values : AssociatedValues} {greatest : Int}
    (ascii : ∀ sample ∈ samples, ∀ c ∈ sample.characters, c.toNat < asciiCount)
    (atMost : values.AtMost greatest) (budget : greatest + tries ≤ maxValue) :
    ∃ assignment, assignFrom samples occurrence maxTries tries values adjustments = .ok assignment := by
  induction tries generalizing values adjustments greatest with
  | zero => exact ⟨_, rfl⟩
  | succ tries ih =>
      have nonneg : ∀ sample ∈ samples, 0 ≤ sample.hash values := fun sample hSample =>
        Sample.hash_nonneg fun c hc => (atMost c (ascii sample hSample c hc)).1
      obtain ⟨hashing, hHash⟩ := exists_hashFrom nonneg
      rw [assignFrom, hashAll, hHash]
      cases hashing with
      | distinct table => exact ⟨_, rfl⟩
      | collision keyword owner =>
          dsimp only
          split
          · exact ⟨_, rfl⟩
          · next target others hCandidates =>
              have hTarget := List.mem_of_mem_head? (congrArg List.head? hCandidates)
              obtain ⟨sample, hSample, hc⟩ := exists_sample_of_mem_candidates hTarget
              have ascii_target := ascii sample hSample target hc
              have room : values.get target < greatest + 1 :=
                Int.lt_add_one_of_le (atMost target ascii_target).2
              obtain ⟨bumped, hBump⟩ := AssociatedValues.exists_bump ascii_target
                (Int.lt_of_lt_of_le room (by omega))
              rw [hBump]
              have atMost_bumped := (atMost.mono (Int.le_add_one (Int.le_refl _))).bump room hBump
              exact ih atMost_bumped (by omega)

/-- An attempt does not fault on samples of ASCII characters if there are fewer of these than a counter can
    tell. -/
theorem exists_assign_of_samples {keywords : List Keyword} {signature : Signature} {maxTries : Nat}
    (ascii : ∀ sample ∈ signature.samples keywords, ∀ c ∈ sample.characters, c.toNat < asciiCount)
    (sampled_lt : ((signature.samples keywords).map (·.characters.length)).sum < counterLimit)
    (tries_le : (maxTries : Int) ≤ maxValue) :
    ∃ assignment, assign keywords signature maxTries = .ok assignment := by
  obtain ⟨occurrence, hOccurrence⟩ := Occurrence.exists_ofSamples ascii sampled_lt
  simp only [assign, hOccurrence]
  apply exists_assignFrom ascii (AssociatedValues.atMost_constant (Int.le_refl 0))
  rwa [Int.zero_add]

/-- An attempt does not fault on ASCII keywords if fewer of their characters are sampled than a counter can
    tell. -/
theorem exists_assign_of_sampled_lt {keywords : List Keyword} {signature : Signature} {maxTries : Nat}
    (ascii : ∀ keyword ∈ keywords, keyword.isAscii)
    (sampled_lt : ((signature.samples keywords).map (·.characters.length)).sum < counterLimit)
    (tries_le : (maxTries : Int) ≤ maxValue) :
    ∃ assignment, assign keywords signature maxTries = .ok assignment :=
  exists_assign_of_samples (ascii_of_mem_samples ascii) sampled_lt tries_le

/-- As a sample is a part of its keyword, no more characters are sampled than there are. -/
theorem sum_length_samples_le (keywords : List Keyword) (signature : Signature) :
    ((signature.samples keywords).map (·.characters.length)).sum
      ≤ (keywords.map Keyword.length).sum := by
  rw [Signature.samples, List.map_map]
  apply List.sum_le_sum
  intro keyword _
  calc (signature.realize keyword.bytes).length
      ≤ keyword.bytes.length := signature.length_realize_le _
    _ = keyword.length := Text.length_bytes _

/-- An attempt does not fault on ASCII keywords that have fewer characters than a counter can tell. -/
theorem exists_assign {keywords : List Keyword} {signature : Signature} {maxTries : Nat}
    (ascii : ∀ keyword ∈ keywords, keyword.isAscii)
    (total_lt : (keywords.map Keyword.length).sum < counterLimit)
    (tries_le : (maxTries : Int) ≤ maxValue) :
    ∃ assignment, assign keywords signature maxTries = .ok assignment :=
  exists_assign_of_sampled_lt ascii
    (Nat.lt_of_le_of_lt (sum_length_samples_le keywords signature) total_lt) tries_le

end KeywordHash
