/-
Module: KeywordHash.Proofs.Assignment.Course
Layer: Proofs
Purpose: What is known before each try of an attempt (`Balanced`): no value is negative, all adjustments
  stand in the values, and only in those of sampled characters. From this follows that no hash is negative
  or too large, and what a success returns: retiring the other characters takes neither a hash nor an
  adjustment away (`assign_course`).
Imports: KeywordHash.Proofs.Assignment, KeywordHash.Proofs.Keyword.Definitions,
  KeywordHash.Proofs.Values.Collision, KeywordHash.Proofs.Values.Total
Trusted boundary: none
Main exports: Balanced, Balanced.start, Balanced.next, Reached.balanced, Balanced.hash_le,
  Balanced.hash_bounds, Returned, returned_of_distinct, assign_course
Open obligations: none
-/
import KeywordHash.Proofs.Assignment
import KeywordHash.Proofs.Keyword.Definitions
import KeywordHash.Proofs.Values.Collision
import KeywordHash.Proofs.Values.Total

namespace KeywordHash

/-! ### Before a try -/

/-- No value is negative, the values add up to the number of adjustments, and only characters that were
    sampled have a value other than zero. -/
structure Balanced (occurrence : Occurrence) (values : AssociatedValues) (adjustments : Nat) : Prop where
  nonneg : ∀ c : UInt8, c.toNat < asciiCount → 0 ≤ values.get c
  total_eq : values.total = adjustments
  sampled : ∀ c : UInt8, c.toNat < asciiCount → values.get c ≠ 0 → occurrence.get c ≠ 0

section

variable {samples : List Sample} {occurrence : Occurrence} {made adjustments : Nat}
  {values : AssociatedValues}

theorem Balanced.start (occurrence : Occurrence) : Balanced occurrence (.constant 0) 0 where
  nonneg := by
    intro c ascii
    rw [AssociatedValues.get_constant 0 ascii]
  total_eq := AssociatedValues.total_constant_zero
  sampled := by
    intro c ascii value_ne
    exact absurd (AssociatedValues.get_constant 0 ascii) value_ne

/-- Raising a sampled character adds one to its value, to the sum and to the adjustments. -/
theorem Balanced.next (balanced : Balanced occurrence values adjustments) {target : UInt8}
    {bumped : AssociatedValues} (isSampled : occurrence.get target ≠ 0)
    (hBump : values.bump target = .ok bumped) : Balanced occurrence bumped (adjustments + 1) where
  nonneg := by
    intro c ascii
    rw [AssociatedValues.get_bump hBump]
    split
    · exact Int.le_add_one (balanced.nonneg target (AssociatedValues.of_bump_eq_ok hBump).1)
    · exact balanced.nonneg c ascii
  total_eq := by
    rw [AssociatedValues.total_bump hBump, balanced.total_eq]
    rfl
  sampled := by
    intro c ascii value_ne
    rw [AssociatedValues.get_bump hBump] at value_ne
    split at value_ne
    · next same => rwa [same]
    · exact balanced.sampled c ascii value_ne

/-- The induction is on the tries that were made; what is raised is a character of a sample. -/
theorem Reached.balanced (hOccurrence : Occurrence.ofSamples samples = .ok occurrence)
    (reached : Reached samples occurrence made values adjustments) :
    Balanced occurrence values adjustments := by
  induction reached with
  | start => exact .start occurrence
  | next _ _ candidates bump balanced =>
      have hTarget := List.mem_of_mem_head? (congrArg List.head? candidates)
      have isSampled := (Occurrence.isSampled_iff hOccurrence).2 (exists_sample_of_mem_candidates hTarget)
      exact balanced.next (of_decide_eq_true isSampled) bump

/-- No value exceeds the number of adjustments. -/
theorem Balanced.atMost (balanced : Balanced occurrence values adjustments) :
    values.AtMost adjustments := by
  intro c ascii
  have le_total := AssociatedValues.get_le_total balanced.nonneg ascii
  rw [balanced.total_eq] at le_total
  exact ⟨balanced.nonneg c ascii, le_total⟩

/-- A hash exceeds the length by as many times the number of adjustments as there are characters, at most. -/
theorem Balanced.hash_le (balanced : Balanced occurrence values adjustments) {sample : Sample}
    (ascii : ∀ c ∈ sample.characters, c.toNat < asciiCount) :
    sample.hash values ≤ sample.length + sample.characters.length * (adjustments : Int) :=
  Sample.hash_le fun c hc => (balanced.atMost c (ascii c hc)).2

/-- No hash is negative or past a machine integer, if there are fewer adjustments than values of a character,
    and fewer characters than a counter can tell. -/
theorem Balanced.hash_bounds (balanced : Balanced occurrence values adjustments) {sample : Sample}
    (ascii : ∀ c ∈ sample.characters, c.toNat < asciiCount)
    (characters_le : sample.characters.length ≤ sample.length) (length_lt : sample.length < counterLimit)
    (adjustments_le : (adjustments : Int) ≤ maxValue) :
    0 ≤ sample.hash values ∧ sample.hash values < 2 ^ 63 := by
  refine ⟨Sample.hash_nonneg fun c hc => balanced.nonneg c (ascii c hc), ?_⟩
  have length_le : (sample.length : Int) ≤ 2 ^ 32 - 1 :=
    Int.le_sub_one_of_lt (Int.ofNat_lt.2 length_lt)
  have sum_le : sample.characters.length * (adjustments : Int) ≤ (2 ^ 32 - 1) * maxValue :=
    Int.mul_le_mul (Int.le_trans (Int.ofNat_le.2 characters_le) length_le) adjustments_le
      (Int.natCast_nonneg adjustments) (by decide)
  calc sample.hash values
      ≤ sample.length + sample.characters.length * (adjustments : Int) :=
        balanced.hash_le ascii
    _ ≤ (2 ^ 32 - 1) + (2 ^ 32 - 1) * maxValue := add_le_add length_le sum_le
    _ < 2 ^ 63 := by decide

end

/-! ### The outcome -/

/-- What a success returns, from the values under which the hashes turned out to be distinct. -/
structure Returned (keywords : List Keyword) (signature : Signature) (searched values : AssociatedValues)
    (table : HashTable) (adjustments : Nat) : Prop where
  hash_eq : ∀ keyword ∈ keywords,
    (signature.sample keyword.bytes).hash values = (signature.sample keyword.bytes).hash searched
  owner_iff : ∀ hash index, table.owner? hash = some index ↔
    ∃ keyword, keywords[index]? = some keyword
      ∧ (signature.sample keyword.bytes).hash values = (hash : Int)
  hash_nodup : (keywords.map fun keyword => (signature.sample keyword.bytes).hash values).Nodup
  total_eq : values.usedTotal = adjustments

/-- Retiring does not change the hashes, nor the sum of the values in use. -/
theorem returned_of_distinct {keywords : List Keyword} {signature : Signature} {occurrence : Occurrence}
    {adjustments : Nat} {searched : AssociatedValues} {table : HashTable}
    (hOccurrence : Occurrence.ofSamples (signature.samples keywords) = .ok occurrence)
    (balanced : Balanced occurrence searched adjustments)
    (distinct : hashAll searched (signature.samples keywords) = .ok (.distinct table)) :
    Returned keywords signature searched (searched.retire occurrence.isSampled) table adjustments := by
  have hash_eq : ∀ sample ∈ signature.samples keywords,
      sample.hash (searched.retire occurrence.isSampled) = sample.hash searched :=
    fun sample hSample => hash_retire_of_mem hOccurrence searched hSample
  have lists := (lists_of_hashAll distinct).congr hash_eq
  constructor
  case hash_eq => exact fun keyword h => hash_eq _ (List.mem_map_of_mem h)
  case owner_iff => exact lists.owner_iff_keyword
  case hash_nodup =>
    rw [← map_hash_samples]
    exact lists.nodup_hashes
  case total_eq =>
    rw [AssociatedValues.usedTotal_retire balanced.nonneg, balanced.total_eq]
    intro c ascii notSampled
    by_contra value_ne
    exact notSampled (decide_eq_true (balanced.sampled c ascii value_ne))

/-- An attempt at a keyword list of which only ASCII characters are sampled. Before each try as many
    adjustments were made as tries, the values are balanced, no hash is negative or past a machine integer,
    a collision is one of two keywords of the list, and the attempt goes on from there. The attempt does not
    fault. What it returns on success is made in fewer adjustments than tries and tells the keywords apart,
    and it runs out of tries after as many collisions. -/
theorem assign_course {keywords : List Keyword} {signature : Signature} {maxTries : Nat}
    (ascii : ∀ keyword ∈ keywords, ∀ c ∈ signature.realize keyword.bytes, c.toNat < asciiCount)
    (total_lt : Keyword.totalLength keywords < counterLimit)
    (tries_le : (maxTries : Int) ≤ maxValue) :
    ∃ occurrence assignment,
      Occurrence.ofSamples (signature.samples keywords) = .ok occurrence
        ∧ assign keywords signature maxTries = .ok assignment
        ∧ (∀ made values adjustments, made ≤ maxTries →
          Reached (signature.samples keywords) occurrence made values adjustments →
          adjustments = made
            ∧ Balanced occurrence values adjustments
            ∧ (∀ keyword ∈ keywords, 0 ≤ (signature.sample keyword.bytes).hash values
              ∧ (signature.sample keyword.bytes).hash values < 2 ^ 63)
            ∧ (∀ keyword owner,
              hashAll values (signature.samples keywords) = .ok (.collision keyword owner) →
              owner < keyword ∧ keyword < keywords.length)
            ∧ assign keywords signature maxTries = assignFrom (signature.samples keywords) occurrence
              maxTries (maxTries - made) values adjustments)
        ∧ (∀ values table adjustments, assignment = .success values table adjustments →
          adjustments < maxTries
            ∧ ∃ searched,
              Reached (signature.samples keywords) occurrence adjustments searched adjustments
                ∧ Returned keywords signature searched values table adjustments)
        ∧ ∀ tries, assignment = .triesExhausted tries →
          tries = maxTries
            ∧ ∃ values, Reached (signature.samples keywords) occurrence maxTries values maxTries := by
  have ascii_samples : ∀ sample ∈ signature.samples keywords, ∀ c ∈ sample.characters,
      c.toNat < asciiCount := by
    intro sample hSample
    obtain ⟨keyword, hKeyword, rfl⟩ := List.mem_map.1 hSample
    exact ascii keyword hKeyword
  have sampled_lt := Nat.lt_of_le_of_lt (sum_length_samples_le keywords signature) total_lt
  obtain ⟨assignment, hAssign⟩ := exists_assign_of_samples ascii_samples sampled_lt tries_le
  obtain ⟨occurrence, hOccurrence, ended⟩ := ended_of_assign hAssign
  refine ⟨occurrence, assignment, hOccurrence, hAssign, ?_, ?_, ?_⟩
  · intro made values adjustments made_le reached
    have adjustments_eq := reached.adjustments_eq
    have balanced := reached.balanced hOccurrence
    refine ⟨adjustments_eq, balanced, fun keyword hKeyword => ?_, fun keyword owner hHash => ?_, ?_⟩
    · apply balanced.hash_bounds (ascii keyword hKeyword) (signature.length_realize_le _)
      · have bytes_length : keyword.bytes.length = keyword.length := Text.length_bytes _
        have length_le := Keyword.length_le_totalLength hKeyword
        exact Nat.lt_of_le_of_lt (bytes_length.trans_le length_le) total_lt
      · rw [adjustments_eq]
        exact Int.le_trans (Int.ofNat_le.2 made_le) tries_le
    · obtain ⟨later, earlier, colliding⟩ := colliding_of_hashAll hHash
      have keyword_lt := (List.getElem?_eq_some_iff.1 colliding.later_eq).1
      rw [Signature.samples, List.length_map] at keyword_lt
      exact ⟨colliding.owner_lt, keyword_lt⟩
    · simp only [assign, hOccurrence]
      exact reached.assignFrom_eq made_le
  · intro values table adjustments same
    subst same
    cases ended with
    | success reached made_lt distinct =>
        have made_eq := reached.adjustments_eq.symm
        subst made_eq
        have balanced := reached.balanced hOccurrence
        exact ⟨made_lt, _, reached, returned_of_distinct hOccurrence balanced distinct⟩
  · intro tries same
    subst same
    cases ended with
    | triesExhausted reached =>
        have adjustments_eq := reached.adjustments_eq
        subst adjustments_eq
        exact ⟨rfl, _, reached⟩

/-- Two words that are not ASCII behind their first characters. -/
def accentedWords : List Keyword :=
  [{ text := "aé", payload := "A" }, { text := "bé", payload := "B" }]

/-- The first and the fourth character of a word, if it has these. -/
def firstAndFourth : Signature :=
  { offsets := [0, 3], ne_nil := by decide, increasing := by decide }

/-- The values that tell the first characters apart. -/
def accentedValues : AssociatedValues :=
  { cells := ((Vector.replicate asciiCount unused).set 97 1 (by decide)).set 98 0 (by decide) }

/-- The two words collide once, and succeed after one adjustment. -/
theorem assign_course_accented :
    (∀ keyword ∈ accentedWords, ∀ c ∈ firstAndFourth.realize keyword.bytes, c.toNat < asciiCount)
      ∧ Keyword.totalLength accentedWords < counterLimit
      ∧ ((2 : Nat) : Int) ≤ maxValue
      ∧ assign accentedWords firstAndFourth 2
        = .ok (.success accentedValues { entries := [(3, 1), (4, 0)] } 1)
      ∧ ∃ occurrence searched,
        Occurrence.ofSamples (firstAndFourth.samples accentedWords) = .ok occurrence
          ∧ Reached (firstAndFourth.samples accentedWords) occurrence 1 searched 1
          ∧ Balanced occurrence searched 1
          ∧ Returned accentedWords firstAndFourth searched accentedValues
            { entries := [(3, 1), (4, 0)] } 1 := by
  have ascii : ∀ keyword ∈ accentedWords, ∀ c ∈ firstAndFourth.realize keyword.bytes,
      c.toNat < asciiCount := by decide +kernel
  have total_lt : Keyword.totalLength accentedWords < counterLimit := by decide +kernel
  have tries_le : ((2 : Nat) : Int) ≤ maxValue := by decide
  have computed : assign accentedWords firstAndFourth 2
      = .ok (.success accentedValues { entries := [(3, 1), (4, 0)] } 1) := by decide +kernel
  obtain ⟨occurrence, assignment, hOccurrence, hAssign, before, success, _⟩ :=
    assign_course ascii total_lt tries_le
  cases hAssign.symm.trans computed
  obtain ⟨_, searched, reached, returned⟩ := success _ _ _ rfl
  have balanced := (before 1 searched 1 (by decide) reached).2.1
  exact ⟨ascii, total_lt, tries_le, computed, occurrence, searched, hOccurrence, reached, balanced,
    returned⟩

end KeywordHash
