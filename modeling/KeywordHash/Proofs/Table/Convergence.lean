/-
Module: KeywordHash.Proofs.Table.Convergence
Layer: Proofs
Purpose: Keywords that differ at one offset get a table, if there are enough tries
  (`Table.build_of_separating`). The attempt at this offset succeeds, and the signatures that are tried in
  front of it are the smaller offsets. None of these attempts faults however long the keywords are, as no
  more characters are sampled than there are keywords, and these are told apart by ASCII characters.
Imports: KeywordHash.Proofs.Assignment.Convergence, KeywordHash.Proofs.Table.FirstSuccess
Trusted boundary: none
Main exports: Signature.single, Keyword.Separating, Keyword.Separating.exists_success,
  Table.build_of_separating
Open obligations: none
-/
import KeywordHash.Proofs.Assignment.Convergence
import KeywordHash.Proofs.Table.FirstSuccess

namespace KeywordHash

/-! ### Signatures of one offset -/

namespace Signature

/-- The signature of a single offset. -/
def single (offset : Nat) : Signature where
  offsets := [offset]
  ne_nil := List.cons_ne_nil _ _
  increasing := List.pairwise_singleton _ _

theorem eq_single {signature : Signature} {offset : Nat} (h : signature.offsets = [offset]) :
    signature = single offset := by
  cases signature
  cases h
  rfl

/-- At most one character is sampled. -/
theorem realize_single (offset : Nat) (word : List UInt8) :
    (single offset).realize word = word[offset]?.toList := by
  rw [realize, single, List.filterMap_cons]
  cases word[offset]? <;> rfl

end Signature

/-- The first candidates are the offsets of the shortest keyword, one by one. -/
theorem Enumeration.getElem?_signatures_start {bounds : Bounds} {offset : Nat}
    (offset_lt : offset < bounds.shortest) :
    (Enumeration.start bounds).signatures[offset]? = some (Signature.single offset) := by
  have walk := (Candidate.first bounds).getElem?_onwards_single rfl (by rwa [Nat.zero_add])
  rw [Nat.zero_add] at walk
  obtain ⟨signature, hSignature, offsets_eq⟩ := Option.map_eq_some_iff.1 walk
  rw [← Signature.eq_single offsets_eq]
  exact hSignature

/-! ### Keywords that differ at an offset -/

namespace Keyword

/-- The offset exists in every keyword, and no two keywords have the same byte there. -/
structure Separating (keywords : List Keyword) (offset : Nat) : Prop where
  lt_shortest : offset < shortest keywords
  distinct : (keywords.map (·.bytes[offset]?)).Nodup

variable {keywords : List Keyword} {offset maxTries : Nat}

theorem shortest_le_length {keyword : Keyword} (h : keyword ∈ keywords) :
    shortest keywords ≤ keyword.length :=
  List.min?_getD_le_of_mem (List.mem_map_of_mem h)

theorem length_le_longest {keyword : Keyword} (h : keyword ∈ keywords) :
    keyword.length ≤ longest keywords :=
  List.le_max?_getD_of_mem (List.mem_map_of_mem h)

/-- What is sampled of a keyword at the offset is its byte there. -/
theorem Separating.sample_eq (separating : Separating keywords offset) {keyword : Keyword}
    (h : keyword ∈ keywords) :
    ∃ c, keyword.bytes[offset]? = some c
      ∧ (Signature.single offset).sample keyword.bytes
        = { length := keyword.length, characters := [c] } := by
  have length_eq : keyword.bytes.length = keyword.length := Text.length_bytes _
  have inside : offset < keyword.bytes.length := by
    rw [length_eq]
    exact Nat.lt_of_lt_of_le separating.lt_shortest (shortest_le_length h)
  obtain ⟨c, hByte⟩ : ∃ c, keyword.bytes[offset]? = some c := ⟨_, List.getElem?_eq_getElem inside⟩
  refine ⟨c, hByte, ?_⟩
  rw [Signature.sample, Signature.realize_single, hByte, length_eq]
  rfl

/-- The samples at the offset are single characters, no two of them the same. -/
theorem Separating.separated (separating : Separating keywords offset) :
    Separated ((Signature.single offset).samples keywords) where
  single := by
    intro sample hSample
    obtain ⟨keyword, hKeyword, rfl⟩ := List.mem_map.1 hSample
    obtain ⟨c, _, sample_eq⟩ := separating.sample_eq hKeyword
    rw [sample_eq]
    rfl
  nodup := by
    have heads_eq : keywords.map (·.bytes[offset]?)
        = (((Signature.single offset).samples keywords).map Sample.head).map some := by
      rw [Signature.samples, List.map_map, List.map_map]
      apply List.map_congr_left
      intro keyword hKeyword
      obtain ⟨c, hByte, sample_eq⟩ := separating.sample_eq hKeyword
      rw [Function.comp_apply, Function.comp_apply, sample_eq, hByte]
      rfl
    have distinct := separating.distinct
    rw [heads_eq] at distinct
    exact distinct.of_map some

/-- No attempt at one offset faults on the keywords. -/
theorem Separating.exists_assign (separating : Separating keywords offset)
    (ascii : ∀ keyword ∈ keywords, keyword.isAscii) (tries_le : (maxTries : Int) ≤ maxValue)
    (other : Nat) : ∃ assignment, assign keywords (Signature.single other) maxTries = .ok assignment := by
  have few : keywords.length ≤ asciiCount := by
    have := separating.separated.length_le (ascii_of_mem_samples ascii)
    rwa [Signature.samples, List.length_map] at this
  have sampled_le : (((Signature.single other).samples keywords).map (·.characters.length)).sum
      ≤ keywords.length := by
    have terms_le : ∀ term ∈ ((Signature.single other).samples keywords).map (·.characters.length),
        term ≤ 1 := by
      intro term hTerm
      obtain ⟨sample, hSample, rfl⟩ := List.mem_map.1 hTerm
      obtain ⟨keyword, _, rfl⟩ := List.mem_map.1 hSample
      rw [Signature.sample, Signature.realize_single]
      exact Option.length_toList_le
    have sum_le := List.sum_le_card_nsmul _ _ terms_le
    rwa [List.length_map, Signature.samples, List.length_map, Nat.nsmul_eq_mul, Nat.mul_one]
      at sum_le
  apply exists_assign_of_sampled_lt ascii _ tries_le
  exact Nat.lt_of_le_of_lt (Nat.le_trans sampled_le few) (by decide)

/-- With enough tries the attempt at the offset succeeds. The hash of a keyword grows by no more than the
    lengths differ by and one for each keyword with a greater byte. -/
theorem Separating.exists_success (separating : Separating keywords offset)
    (ascii : ∀ keyword ∈ keywords, keyword.isAscii)
    (budget : keywords.length * (longest keywords - shortest keywords)
      + keywords.length * (keywords.length - 1) / 2 < maxTries)
    (tries_le : (maxTries : Int) ≤ maxValue) :
    ∃ values table adjustments,
      assign keywords (Signature.single offset) maxTries = .ok (.success values table adjustments)
        ∧ adjustments ≤ keywords.length * (longest keywords - shortest keywords)
          + keywords.length * (keywords.length - 1) / 2 := by
  obtain ⟨assignment, hAssign⟩ := separating.exists_assign ascii tries_le offset
  have attempt := hAssign
  simp only [assign] at attempt
  split at attempt
  · cases attempt
  · next occurrence hOccurrence =>
      have lengths : ∀ sample ∈ (Signature.single offset).samples keywords,
          shortest keywords ≤ sample.length ∧ sample.length ≤ longest keywords := by
        intro sample hSample
        obtain ⟨keyword, hKeyword, rfl⟩ := List.mem_map.1 hSample
        obtain ⟨c, _, sample_eq⟩ := separating.sample_eq hKeyword
        rw [sample_eq]
        exact ⟨shortest_le_length hKeyword, length_le_longest hKeyword⟩
      have started := Progress.start (ascii_of_mem_samples ascii) fun sample h => (lengths sample h).2
      have length_eq : ((Signature.single offset).samples keywords).length = keywords.length :=
        List.length_map _
      rw [← length_eq] at budget ⊢
      obtain ⟨values, table, adjustments, rfl, adjustments_le⟩ :=
        success_of_assignFrom separating.separated hOccurrence (fun sample h => (lengths sample h).1)
          started (by rwa [Nat.zero_add]) attempt
      exact ⟨values, table, adjustments, hAssign, adjustments_le⟩

end Keyword

namespace Table

/-- Keywords with different bytes at an offset that exists in all of them: with more tries than there is room
    for adjustments, the attempt at this offset succeeds within this room, and a table is built behind no
    more signatures than there are offsets up to this one. -/
theorem build_of_separating {keywords : List Keyword} {offset maxTries : Nat}
    (valid : Keyword.Valid keywords) (separating : Keyword.Separating keywords offset)
    (budget : keywords.length * (Keyword.longest keywords - Keyword.shortest keywords)
      + keywords.length * (keywords.length - 1) / 2 < maxTries)
    (tries_le : maxTries ≤ 2 ^ 31 - 1) :
    (∃ values table adjustments,
        assign keywords (Signature.single offset) maxTries = .ok (.success values table adjustments)
          ∧ adjustments ≤ keywords.length * (Keyword.longest keywords - Keyword.shortest keywords)
            + keywords.length * (keywords.length - 1) / 2)
      ∧ ∃ table, build keywords maxTries = .ok table ∧ table.stats.signaturesTried ≤ offset + 1 := by
  have tries_le_value : (maxTries : Int) ≤ maxValue := by
    rw [maxValue]
    omega
  have success := separating.exists_success valid.isAscii budget tries_le_value
  refine ⟨success, ?_⟩
  obtain ⟨values, table, adjustments, hAssign, _⟩ := success
  obtain ⟨bounds, hBounds, building⟩ := build_of_valid valid
  have offset_lt : offset < bounds.shortest := by
    rw [(Bounds.ofLengths_eq_ok hBounds).1]
    exact separating.lt_shortest
  have attempts : ∀ earlier ∈ (Enumeration.start bounds).signatures.take offset,
      ∃ assignment, assign keywords earlier maxTries = .ok assignment := by
    intro earlier hEarlier
    obtain ⟨position, hPosition⟩ := List.mem_iff_getElem?.1 hEarlier
    rw [List.getElem?_take] at hPosition
    split at hPosition
    · next position_lt =>
        rw [Enumeration.getElem?_signatures_start (Nat.lt_trans position_lt offset_lt)] at hPosition
        cases hPosition
        exact separating.exists_assign valid.isAscii tries_le_value position
    · cases hPosition
  obtain ⟨found, hFound, tried_le⟩ := @exists_tryInTurn_of_succeeds keywords maxTries 0 _ _ _ attempts
    (Enumeration.getElem?_signatures_start offset_lt) ⟨values, table, adjustments, hAssign⟩
  rw [Nat.zero_add] at tried_le
  exact ⟨ofFound keywords found, by rw [(building maxTries).2, hFound]; rfl, tried_le⟩

/-- Three words of two lengths that differ in their second characters only. -/
def declaringWords : List Keyword :=
  [{ text := "do", payload := "Do" }, { text := "def", payload := "Def" },
    { text := "dim", payload := "Dim" }]

/-- For the three words there is room for six adjustments, so seven tries suffice at the second offset. -/
theorem build_of_separating_declaring :
    Keyword.Valid declaringWords ∧ Keyword.Separating declaringWords 1
      ∧ declaringWords.length * (Keyword.longest declaringWords - Keyword.shortest declaringWords)
        + declaringWords.length * (declaringWords.length - 1) / 2 < 7
      ∧ 7 ≤ 2 ^ 31 - 1
      ∧ (∃ values table adjustments,
          assign declaringWords (Signature.single 1) 7 = .ok (.success values table adjustments)
            ∧ adjustments
              ≤ declaringWords.length
                  * (Keyword.longest declaringWords - Keyword.shortest declaringWords)
                + declaringWords.length * (declaringWords.length - 1) / 2)
      ∧ ∃ table, build declaringWords 7 = .ok table ∧ table.stats.signaturesTried ≤ 2 := by
  have valid : Keyword.Valid declaringWords := Keyword.validate_eq_ok_iff.1 (by decide +kernel)
  have separating : Keyword.Separating declaringWords 1 :=
    { lt_shortest := by decide +kernel, distinct := by decide +kernel }
  have budget : declaringWords.length
        * (Keyword.longest declaringWords - Keyword.shortest declaringWords)
      + declaringWords.length * (declaringWords.length - 1) / 2 < 7 := by decide +kernel
  have tries_le : 7 ≤ 2 ^ 31 - 1 := by decide
  exact ⟨valid, separating, budget, tries_le, build_of_separating valid separating budget tries_le⟩

end Table

end KeywordHash
