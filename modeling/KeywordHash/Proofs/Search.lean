/-
Module: KeywordHash.Proofs.Search
Layer: Proofs
Purpose: Where the result of a search comes from. A search that starts has a valid keyword list and
  looks at candidates within the bounds of its lengths; what a run finds is the outcome of a successful
  attempt at one of these candidates. On a valid keyword list every search starts, and if no attempt
  faults a run finds values or gives up (`run_outcome`).
Imports: KeywordHash.Proofs.Keyword.Validity, KeywordHash.Proofs.Outcome, KeywordHash.Search
Trusted boundary: none
Main exports: Keyword.lengths_eq, Search.start_eq_ok, Search.run_eq_ok, Search.exists_start,
  Search.run_outcome
Open obligations: none
-/
import KeywordHash.Proofs.Keyword.Validity
import KeywordHash.Proofs.Outcome
import KeywordHash.Search

namespace KeywordHash

/-- The word lengths of a keyword list are those of the shortest and the longest keyword. -/
theorem Keyword.lengths_eq {keywords : List Keyword} (ne_nil : keywords ≠ []) :
    (keywords.map length).min? = some (shortest keywords)
      ∧ (keywords.map length).max? = some (longest keywords) := by
  have lengths_ne_nil : keywords.map length ≠ [] := fun h => ne_nil (List.map_eq_nil_iff.1 h)
  obtain ⟨least, hLeast⟩ := Option.isSome_iff_exists.1 (List.isSome_min?_of_ne_nil lengths_ne_nil)
  obtain ⟨greatest, hGreatest⟩ :=
    Option.isSome_iff_exists.1 (List.isSome_max?_of_ne_nil lengths_ne_nil)
  rw [shortest, longest, hLeast, hGreatest]
  exact ⟨rfl, rfl⟩

/-- The lengths of valid keywords are bounds: no keyword is empty. -/
theorem Keyword.Valid.exists_bounds {keywords : List Keyword} (valid : Valid keywords) :
    ∃ bounds, Bounds.ofLengths (shortest keywords) (longest keywords) = .ok bounds := by
  obtain ⟨min_eq, max_eq⟩ := lengths_eq valid.ne_nil
  obtain ⟨hShortest, shortest_le⟩ := List.min?_eq_some_iff.1 min_eq
  obtain ⟨hLongest, _⟩ := List.max?_eq_some_iff.1 max_eq
  obtain ⟨keyword, hKeyword, length_eq⟩ := List.mem_map.1 hShortest
  have length_ne : keyword.length ≠ 0 := fun zero =>
    valid.text_ne_empty keyword hKeyword (String.utf8ByteSize_eq_zero_iff.1 zero)
  have shortest_pos : 0 < shortest keywords := by
    rw [← length_eq]
    exact Nat.pos_of_ne_zero length_ne
  exact ⟨_, dif_pos ⟨shortest_pos, shortest_le _ hLongest⟩⟩

/-- Bounds have the lengths that they were made with. -/
theorem Bounds.ofLengths_eq_ok {shortest longest : Nat} {bounds : Bounds}
    (h : Bounds.ofLengths shortest longest = .ok bounds) :
    bounds.shortest = shortest ∧ bounds.longest = longest := by
  rw [ofLengths] at h
  split at h
  · cases h
    exact ⟨rfl, rfl⟩
  · cases h

namespace Search

/-- A search starts with valid keywords and all candidates within the bounds of their lengths. -/
theorem start_eq_ok {keywords : List Keyword} {maxTries : Nat} {search : Search}
    (h : start keywords maxTries = .ok search) :
    Keyword.Valid keywords ∧ ∃ bounds : Bounds,
      bounds.shortest = Keyword.shortest keywords ∧ bounds.longest = Keyword.longest keywords
        ∧ search = { keywords := keywords, enumeration := .start bounds, maxTries := maxTries } := by
  obtain ⟨_, hValid, h⟩ := exists_ok_of_bind h
  obtain ⟨bounds, hBounds, h⟩ := exists_ok_of_bind h
  cases h
  obtain ⟨shortest_eq, longest_eq⟩ := Bounds.ofLengths_eq_ok (orFault_eq_ok hBounds)
  exact ⟨Keyword.validate_eq_ok_iff.1 hValid, bounds, shortest_eq, longest_eq, rfl⟩

/-- An attempt is made at a candidate within the bounds, and leaves keywords, bounds and tries alone. -/
theorem step_eq_attempt {search after : Search} {signature : Signature} {assignment : Assignment}
    (h : search.step = (.ok (.attempt signature assignment), after)) :
    search.enumeration.bounds.Admits signature.offsets
      ∧ assign search.keywords signature search.maxTries = .ok assignment
      ∧ after.keywords = search.keywords ∧ after.maxTries = search.maxTries
      ∧ after.enumeration.bounds = search.enumeration.bounds := by
  rw [step] at h
  split at h
  · cases h
  · next tried following hNext =>
      injection h with hStep hAfter
      subst hAfter
      rw [Enumeration.next?] at hNext
      split at hNext
      · cases hNext
      · next candidate hUpcoming =>
          cases hNext
          cases hAssign : assign search.keywords candidate.signature search.maxTries with
          | error fault =>
              rw [hAssign] at hStep
              cases hStep
          | ok found =>
              rw [hAssign] at hStep
              cases hStep
              exact ⟨candidate.admitted, hAssign, rfl, rfl, rfl⟩

/-- A run is a step, and another run if the attempt failed. -/
theorem run_eq (search : Search) :
    search.run = match search.step with
      | (.error fault, _) => .error (.abandoned fault)
      | (.ok .giveUp, after) => .error (.gaveUp after.tried)
      | (.ok (.attempt signature (.success values table adjustments)), after) =>
          .ok
            { signature := signature, values := values, table := table, adjustments := adjustments
              signaturesTried := after.tried }
      | (.ok (.attempt _ (.unresolvable _ _)), after) => after.run
      | (.ok (.attempt _ (.triesExhausted _)), after) => after.run := by
  rw [run]
  split <;> simp only [*]

/-- What a run finds comes from a successful attempt at a candidate. The induction follows the steps of
    the run; those before the last one change neither keywords nor bounds nor tries. -/
theorem run_eq_ok {search : Search} {found : Found} (h : search.run = .ok found) :
    search.enumeration.bounds.Admits found.signature.offsets
      ∧ assign search.keywords found.signature search.maxTries
        = .ok (.success found.values found.table found.adjustments) := by
  induction search using run.induct with
  | case1 search fault after hStep =>
      rw [run_eq, hStep] at h
      cases h
  | case2 search after hStep =>
      rw [run_eq, hStep] at h
      cases h
  | case3 search signature values table adjustments after hStep =>
      rw [run_eq, hStep] at h
      cases h
      obtain ⟨admitted, hAssign, _⟩ := step_eq_attempt hStep
      exact ⟨admitted, hAssign⟩
  | case4 search signature keyword other after hStep ih =>
      rw [run_eq, hStep] at h
      obtain ⟨_, _, keywords_eq, maxTries_eq, bounds_eq⟩ := step_eq_attempt hStep
      rw [← keywords_eq, ← maxTries_eq, ← bounds_eq]
      exact ih h
  | case5 search signature tries after hStep ih =>
      rw [run_eq, hStep] at h
      obtain ⟨_, _, keywords_eq, maxTries_eq, bounds_eq⟩ := step_eq_attempt hStep
      rw [← keywords_eq, ← maxTries_eq, ← bounds_eq]
      exact ih h

/-! ### Searches that do not fault -/

/-- A search starts on all valid keywords. -/
theorem exists_start {keywords : List Keyword} {maxTries : Nat} (valid : Keyword.Valid keywords) :
    ∃ search, start keywords maxTries = .ok search := by
  obtain ⟨bounds, hBounds⟩ := valid.exists_bounds
  rw [start, Keyword.validate_eq_ok_iff.2 valid, ok_bind, hBounds]
  exact ⟨_, rfl⟩

/-- A step only faults if its attempt does. -/
theorem assign_of_step_eq_error {search after : Search} {fault : Fault}
    (h : search.step = (.error fault, after)) :
    ∃ signature, assign search.keywords signature search.maxTries = .error fault := by
  rw [step] at h
  split at h
  · cases h
  · next signature following _ =>
      cases hAssign : assign search.keywords signature search.maxTries with
      | error other =>
          rw [hAssign] at h
          cases h
          exact ⟨signature, hAssign⟩
      | ok assignment =>
          rw [hAssign] at h
          cases h

/-- A run finds values or gives up if no attempt faults. The induction follows the steps of the run, none
    of which changes the keywords or the number of tries. -/
theorem run_outcome {search : Search}
    (attempts : ∀ signature, ∃ assignment,
      assign search.keywords signature search.maxTries = .ok assignment) :
    (∃ found, search.run = .ok found) ∨ ∃ tried, search.run = .error (.gaveUp tried) := by
  induction search using run.induct with
  | case1 search fault after hStep =>
      obtain ⟨signature, hFault⟩ := assign_of_step_eq_error hStep
      obtain ⟨assignment, hAssign⟩ := attempts signature
      rw [hAssign] at hFault
      cases hFault
  | case2 search after hStep =>
      rw [run_eq, hStep]
      exact Or.inr ⟨_, rfl⟩
  | case3 search signature values table adjustments after hStep =>
      rw [run_eq, hStep]
      exact Or.inl ⟨_, rfl⟩
  | case4 search signature keyword other after hStep ih =>
      obtain ⟨_, _, keywords_eq, maxTries_eq, _⟩ := step_eq_attempt hStep
      rw [run_eq, hStep]
      rw [keywords_eq, maxTries_eq] at ih
      exact ih attempts
  | case5 search signature tries after hStep ih =>
      obtain ⟨_, _, keywords_eq, maxTries_eq, _⟩ := step_eq_attempt hStep
      rw [run_eq, hStep]
      rw [keywords_eq, maxTries_eq] at ih
      exact ih attempts

end Search

end KeywordHash
