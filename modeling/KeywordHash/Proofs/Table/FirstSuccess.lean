/-
Module: KeywordHash.Proofs.Table.FirstSuccess
Layer: Proofs
Purpose: Which table is built, and when none is (`Table.build_first_success`). Building for valid keywords
  is trying the candidates in the order of their enumeration, so the table comes from the first candidate
  at which an attempt succeeds, and the number of candidates is known when there is no such one.
Imports: KeywordHash.Proofs.Assignment, KeywordHash.Proofs.Keyword.Definitions,
  KeywordHash.Proofs.Search.Course, KeywordHash.Proofs.Signature.Count,
  KeywordHash.Proofs.Table.Perfect
Trusted boundary: none
Main exports: Keyword.Valid.exists_assign, Table.build_of_valid, Table.SearchedInOrder,
  Table.build_first_success
Open obligations: none
-/
import KeywordHash.Proofs.Assignment
import KeywordHash.Proofs.Keyword.Definitions
import KeywordHash.Proofs.Search.Course
import KeywordHash.Proofs.Signature.Count
import KeywordHash.Proofs.Table.Perfect

namespace KeywordHash

/-- No attempt for valid keywords faults within the bounds on their lengths and on the tries. -/
theorem Keyword.Valid.exists_assign {keywords : List Keyword} {maxTries : Nat} (valid : Valid keywords)
    (total_lt : totalLength keywords < 2 ^ 32) (tries_le : maxTries ≤ 2 ^ 31 - 1)
    (signature : Signature) : ∃ assignment, assign keywords signature maxTries = .ok assignment := by
  have tries_le_value : (maxTries : Int) ≤ maxValue := by
    rw [maxValue]
    omega
  exact KeywordHash.exists_assign valid.isAscii total_lt tries_le_value

namespace Table

/-- Building for valid keywords is trying in turn all candidates within the bounds of their lengths. -/
theorem build_of_valid {keywords : List Keyword} (valid : Keyword.Valid keywords) :
    ∃ bounds, Bounds.ofLengths (Keyword.shortest keywords) (Keyword.longest keywords) = .ok bounds
      ∧ ∀ maxTries,
        Search.start keywords maxTries
            = .ok { keywords := keywords, enumeration := .start bounds, maxTries := maxTries }
          ∧ build keywords maxTries
            = (tryInTurn keywords maxTries 0 (Enumeration.start bounds).signatures).map
                (ofFound keywords) := by
  obtain ⟨bounds, hBounds⟩ := valid.exists_bounds
  refine ⟨bounds, hBounds, fun maxTries => ?_⟩
  have hStart : Search.start keywords maxTries
      = .ok { keywords := keywords, enumeration := .start bounds, maxTries := maxTries } := by
    rw [Search.start, Keyword.validate_eq_ok_iff.2 valid, ok_bind, hBounds]
    rfl
  refine ⟨hStart, ?_⟩
  rw [build, hStart, ok_bind, Search.run_eq_tryInTurn]
  dsimp only
  cases tryInTurn keywords maxTries 0 (Enumeration.start bounds).signatures <;> rfl

/-- How the search for keywords goes and what is built for them. The signatures are those of the candidates
    within the bounds, in the order of their enumeration. -/
structure SearchedInOrder (keywords : List Keyword) (maxTries : Nat) (bounds : Bounds)
    (search : Search) (signatures : List Signature) : Prop where
  bounds_eq : Bounds.ofLengths (Keyword.shortest keywords) (Keyword.longest keywords) = .ok bounds
  take_eq : ∀ calls, ((Enumeration.start bounds).take calls).1 = signatures.take calls
  start_eq : Search.start keywords maxTries = .ok search
  course : search.Course keywords maxTries signatures
  /-- A table is built from the first success, and tells the place of its signature, counted from one. -/
  build_iff : ∀ table, build keywords maxTries = .ok table ↔
    ∃ position found, FirstSuccess keywords maxTries signatures position found
      ∧ found.signaturesTried = position + 1 ∧ table = ofFound keywords found
      ∧ table.signature = found.signature ∧ table.stats.signaturesTried = position + 1
  exists_iff : (∃ table, build keywords maxTries = .ok table) ↔
    ∃ signature ∈ signatures, Succeeds keywords maxTries signature
  /-- Without a success all candidates were tried. Those of one size are as many as there are sets of
      offsets of the longest keyword, less the sets that lie behind the shortest keyword. -/
  gaveUp : (∀ signature ∈ signatures, ¬ Succeeds keywords maxTries signature) →
    build keywords maxTries = .error (.gaveUp
      (∑ size ∈ Finset.Icc 1 (max (Keyword.longest keywords - Keyword.shortest keywords + 1)
          (min 2 (Keyword.longest keywords))),
        ((Keyword.longest keywords).choose size
          - (Keyword.longest keywords - Keyword.shortest keywords).choose size)))

/-- For valid keywords each step of the search makes the attempt at the next candidate, as long as there is
    one, and then gives up for good. The table that is built comes from the first attempt that succeeds;
    if none does, building gives up behind the last candidate. -/
theorem build_first_success {keywords : List Keyword} {maxTries : Nat}
    (valid : Keyword.Valid keywords) (total_lt : Keyword.totalLength keywords < 2 ^ 32)
    (tries_le : maxTries ≤ 2 ^ 31 - 1) :
    ∃ bounds search signatures, SearchedInOrder keywords maxTries bounds search signatures := by
  obtain ⟨bounds, hBounds, building⟩ := build_of_valid valid
  obtain ⟨hStart, hBuild⟩ := building maxTries
  have attempts := valid.exists_assign total_lt tries_le
  have build_iff : ∀ table, build keywords maxTries = .ok table ↔
      ∃ position found,
        FirstSuccess keywords maxTries (Enumeration.start bounds).signatures position found
          ∧ found.signaturesTried = position + 1 ∧ table = ofFound keywords found
          ∧ table.signature = found.signature ∧ table.stats.signaturesTried = position + 1 := by
    intro table
    rw [hBuild]
    constructor
    · intro h
      obtain ⟨found, hFound, rfl⟩ := exists_ok_of_map h
      obtain ⟨position, success, tried_eq⟩ := tryInTurn_eq_ok hFound
      rw [Nat.zero_add] at tried_eq
      exact ⟨position, found, success, tried_eq, rfl, rfl, tried_eq⟩
    · rintro ⟨position, found, success, tried_eq, rfl, _⟩
      rw [tryInTurn_of_first attempts success (by omega)]
      rfl
  refine ⟨bounds, { keywords := keywords, enumeration := .start bounds, maxTries := maxTries },
    (Enumeration.start bounds).signatures, ?_⟩
  constructor
  case bounds_eq => exact hBounds
  case take_eq =>
    intro calls
    exact (Enumeration.takeAfter_eq calls [] _).1
  case start_eq => exact hStart
  case course => exact Search.course_of_attempts rfl attempts
  case build_iff => exact build_iff
  case exists_iff =>
    constructor
    · rintro ⟨table, built⟩
      obtain ⟨position, found, success, _⟩ := (build_iff table).1 built
      exact ⟨found.signature, List.mem_of_getElem? success.signature_eq, _, _, _, success.assign_eq⟩
    · intro succeeds
      obtain ⟨position, found, success, tried_eq⟩ := exists_firstSuccess 0 succeeds
      rw [Nat.zero_add] at tried_eq
      exact ⟨_, (build_iff _).2 ⟨position, found, success, tried_eq, rfl, rfl, tried_eq⟩⟩
  case gaveUp =>
    intro fail
    obtain ⟨shortest_eq, longest_eq⟩ := Bounds.ofLengths_eq_ok hBounds
    rw [hBuild, tryInTurn_of_none attempts fail, Enumeration.length_signatures_start, Nat.zero_add,
      Bounds.candidateCount, Bounds.maxSize, shortest_eq, longest_eq, min_comm]
    rfl

/-- Two words of the same two characters. -/
def swappedWords : List Keyword :=
  [{ text := "ab", payload := "Ab" }, { text := "ba", payload := "Ba" }]

/-- The search for the two words, with one try for each signature. -/
theorem build_first_success_swapped :
    Keyword.Valid swappedWords ∧ Keyword.totalLength swappedWords < 2 ^ 32 ∧ 1 ≤ 2 ^ 31 - 1
      ∧ ∃ bounds search signatures, SearchedInOrder swappedWords 1 bounds search signatures := by
  have valid : Keyword.Valid swappedWords := Keyword.validate_eq_ok_iff.1 (by decide +kernel)
  have total_lt : Keyword.totalLength swappedWords < 2 ^ 32 := by decide +kernel
  have tries_le : 1 ≤ 2 ^ 31 - 1 := by decide
  exact ⟨valid, total_lt, tries_le, build_first_success valid total_lt tries_le⟩

/-- One try does not tell the two words apart. There are three candidates: two with one offset and one with
    both. -/
example : build swappedWords 1 = .error (.gaveUp 3) := by
  decide +kernel

end Table

end KeywordHash
