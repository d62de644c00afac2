/-
Module: KeywordHash.Proofs.Table.MoreTries
Layer: Proofs
Purpose: More tries for each signature never hurt (`Table.build_of_more_tries`). An attempt that ends before
  its tries are used up ends in the same way with more of them, as both go through the same values. So two
  searches with different numbers of tries can only part at a signature for which the fewer tries did not
  suffice; there the search with more tries may find values, and then it is done earlier.
Imports: KeywordHash.Proofs.Table.FirstSuccess
Trusted boundary: none
Main exports: assign_of_le, tryInTurn_of_le, tryInTurn_gaveUp_of_le, Table.build_of_more_tries
Open obligations: none
-/
import KeywordHash.Proofs.Table.FirstSuccess

namespace KeywordHash

/-! ### Attempts -/

/-- An attempt that ends before the tries are used up ends in the same way with more of them. The induction
    is on the fewer tries; both attempts raise the same characters. -/
theorem assignFrom_of_le {samples : List Sample} {occurrence : Occurrence}
    {limit greater fewer more adjustments : Nat} {values : AssociatedValues} {assignment : Assignment}
    (le : fewer ≤ more) (settled : ∀ tries, assignment ≠ .triesExhausted tries)
    (h : assignFrom samples occurrence limit fewer values adjustments = .ok assignment) :
    assignFrom samples occurrence greater more values adjustments = .ok assignment := by
  induction fewer generalizing more values adjustments with
  | zero =>
      cases h
      exact absurd rfl (settled limit)
  | succ fewer ih =>
      obtain ⟨more, rfl⟩ := Nat.exists_eq_succ_of_ne_zero (Nat.ne_zero_of_lt le)
      rw [assignFrom] at h ⊢
      split at h
      · cases h
      · exact h
      · next keyword owner hHash =>
          split at h
          · exact h
          · next target others hCandidates =>
              split at h
              · cases h
              · next bumped hBump => exact ih (Nat.le_of_succ_le_succ le) h

section

variable {keywords : List Keyword} {signature : Signature} {fewer more : Nat}

/-- What an attempt comes to before its tries are used up does not depend on how many there are. -/
theorem assign_of_le {assignment : Assignment} (le : fewer ≤ more)
    (settled : ∀ tries, assignment ≠ .triesExhausted tries)
    (h : assign keywords signature fewer = .ok assignment) :
    assign keywords signature more = .ok assignment := by
  simp only [assign] at h ⊢
  split at h
  · cases h
  · exact assignFrom_of_le le settled h

/-- Whether an attempt faults does not depend on the number of tries, as long as no value can become too
    great: the samples are counted before the first try. -/
theorem exists_assign_of_assign {assignment : Assignment} (tries_le : (more : Int) ≤ maxValue)
    (h : assign keywords signature fewer = .ok assignment) :
    ∃ other, assign keywords signature more = .ok other := by
  simp only [assign] at h ⊢
  split at h
  · cases h
  · next occurrence hOccurrence =>
      have ascii : ∀ sample ∈ signature.samples keywords, ∀ c ∈ sample.characters,
          c.toNat < asciiCount :=
        fun sample hSample c hc => Occurrence.ascii_of_ofSamples hOccurrence hSample hc
      apply exists_assignFrom ascii (AssociatedValues.atMost_constant (Int.le_refl 0))
      rwa [Int.zero_add]

end

/-! ### Searches -/

section

variable {keywords : List Keyword} {fewer more tried : Nat}

/-- A search with more tries finds values whenever one with fewer tries does, behind no more signatures. If
    it takes as many, the signature is the same, and so is all that is found. -/
theorem tryInTurn_of_le {signatures : List Signature} {found : Found} (le : fewer ≤ more)
    (tries_le : (more : Int) ≤ maxValue)
    (h : tryInTurn keywords fewer tried signatures = .ok found) :
    ∃ other, tryInTurn keywords more tried signatures = .ok other
      ∧ other.signaturesTried ≤ found.signaturesTried
      ∧ (other.signaturesTried = found.signaturesTried → other = found) := by
  induction signatures generalizing tried with
  | nil => cases h
  | cons signature rest ih =>
      cases hFewer : assign keywords signature fewer with
      | error fault =>
          rw [tryInTurn, hFewer] at h
          cases h
      | ok assignment =>
          cases assignment with
          | success values table adjustments =>
              have hMore := assign_of_le le (by simp) hFewer
              rw [tryInTurn, hFewer] at h
              cases h
              rw [tryInTurn, hMore]
              exact ⟨_, rfl, Nat.le_refl _, fun _ => rfl⟩
          | unresolvable keyword owner =>
              have hMore := assign_of_le le (by simp) hFewer
              rw [tryInTurn_cons_of_other hFewer (by simp)] at h
              rw [tryInTurn_cons_of_other hMore (by simp)]
              exact ih h
          | triesExhausted tries =>
              -- Here the searches may part.
              obtain ⟨assignment, hMore⟩ := exists_assign_of_assign tries_le hFewer
              rw [tryInTurn_cons_of_other hFewer (by simp)] at h
              cases assignment with
              | success values table adjustments =>
                  obtain ⟨position, _, tried_eq⟩ := tryInTurn_eq_ok h
                  rw [tryInTurn, hMore]
                  refine ⟨_, rfl, ?_, ?_⟩
                  · dsimp only
                    omega
                  · intro same
                    dsimp only at same
                    omega
              | unresolvable keyword owner =>
                  rw [tryInTurn_cons_of_other hMore (by simp)]
                  exact ih h
              | triesExhausted tries =>
                  rw [tryInTurn_cons_of_other hMore (by simp)]
                  exact ih h

/-- A search that gives up would have given up with fewer tries, too, behind the same signatures. -/
theorem tryInTurn_gaveUp_of_le {signatures : List Signature} {count : Nat} (le : fewer ≤ more)
    (tries_le : (more : Int) ≤ maxValue)
    (h : tryInTurn keywords more tried signatures = .error (.gaveUp count)) :
    tryInTurn keywords fewer tried signatures = .error (.gaveUp count) := by
  induction signatures generalizing tried with
  | nil => exact h
  | cons signature rest ih =>
      have fewer_le : (fewer : Int) ≤ maxValue := Int.le_trans (Int.ofNat_le.2 le) tries_le
      cases hMore : assign keywords signature more with
      | error fault =>
          rw [tryInTurn, hMore] at h
          cases h
      | ok assignment =>
          have fails : ∀ values table adjustments,
              assignment ≠ .success values table adjustments := by
            rintro values table adjustments rfl
            rw [tryInTurn, hMore] at h
            cases h
          obtain ⟨other, hFewer⟩ := exists_assign_of_assign fewer_le hMore
          have otherFails : ∀ values table adjustments, other ≠ .success values table adjustments := by
            rintro values table adjustments rfl
            have hSuccess := assign_of_le le (by simp) hFewer
            rw [hMore] at hSuccess
            injection hSuccess with same
            exact fails values table adjustments same
          rw [tryInTurn_cons_of_other hMore fails] at h
          rw [tryInTurn_cons_of_other hFewer otherFails]
          exact ih h

end

namespace Table

/-- What more tries change for valid keywords. An attempt that succeeded or found that two keywords can not
    be told apart comes to the same. A table is still built, from the same signature or an earlier one; it
    is the same table if the signature is the same. If building gives up, it gives up with fewer tries as
    well, behind as many signatures. -/
theorem build_of_more_tries {keywords : List Keyword} {fewer more : Nat}
    (valid : Keyword.Valid keywords) (le : fewer ≤ more) (more_le : more ≤ 2 ^ 31 - 1) :
    (∀ signature assignment, (∀ tries, assignment ≠ .triesExhausted tries) →
        assign keywords signature fewer = .ok assignment →
        assign keywords signature more = .ok assignment)
      ∧ (∀ table, build keywords fewer = .ok table →
          ∃ other, build keywords more = .ok other
            ∧ other.stats.signaturesTried ≤ table.stats.signaturesTried
            ∧ (other.stats.signaturesTried = table.stats.signaturesTried → other = table))
      ∧ ∀ tried, build keywords more = .error (.gaveUp tried) →
          build keywords fewer = .error (.gaveUp tried) := by
  obtain ⟨bounds, _, building⟩ := build_of_valid valid
  have tries_le : (more : Int) ≤ maxValue := by
    rw [maxValue]
    omega
  rw [(building fewer).2, (building more).2]
  refine ⟨fun signature assignment settled h => assign_of_le le settled h, ?_, ?_⟩
  · intro table h
    obtain ⟨found, hFound, rfl⟩ := exists_ok_of_map h
    obtain ⟨other, hOther, tried_le, same⟩ := tryInTurn_of_le le tries_le hFound
    refine ⟨ofFound keywords other, by rw [hOther]; rfl, tried_le, fun tried_eq => ?_⟩
    rw [same tried_eq]
  · intro tried h
    cases hMore : tryInTurn keywords more 0 (Enumeration.start bounds).signatures with
    | ok found =>
        rw [hMore] at h
        cases h
    | error error =>
        rw [hMore] at h
        cases h
        rw [tryInTurn_gaveUp_of_le le tries_le hMore]
        rfl

/-- The table of three words is built with 100 tries for each signature, so one is built with 200, from the
    second signature at the latest. -/
theorem build_of_more_tries_reserved :
    Keyword.Valid reservedWords ∧ 100 ≤ 200 ∧ 200 ≤ 2 ^ 31 - 1
      ∧ build reservedWords 100 = .ok reservedTable
      ∧ ∃ other, build reservedWords 200 = .ok other ∧ other.stats.signaturesTried ≤ 2
          ∧ (other.stats.signaturesTried = 2 → other = reservedTable) := by
  have valid : Keyword.Valid reservedWords := Keyword.validate_eq_ok_iff.1 (by decide +kernel)
  have le : 100 ≤ 200 := by decide
  have more_le : 200 ≤ 2 ^ 31 - 1 := by decide
  exact ⟨valid, le, more_le, build_reserved,
    (build_of_more_tries valid le more_le).2.1 reservedTable build_reserved⟩

/-- For the two words that gave up with one try, two tries suffice at the first signature. -/
example : (build swappedWords 2).map (·.stats) = .ok { signaturesTried := 1, adjustments := 1 } := by
  decide +kernel

end Table

end KeywordHash
