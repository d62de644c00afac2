/-
Module: KeywordHash.Proofs.Search.Course
Layer: Proofs
Purpose: The course of a search, told by the list of signatures that its enumeration has left. Each step
  takes the first of them and reports the attempt at it (`step_of_signatures_cons`), so after a number of
  steps that many signatures are gone. A run is the same as trying the signatures in turn
  (`run_eq_tryInTurn`), and what it finds comes from the first of them at which an attempt succeeds.
Imports: KeywordHash.Proofs.Search, KeywordHash.Proofs.Signature.Enumeration
Trusted boundary: none
Main exports: Search.afterSteps, Search.Course, Search.course_of_attempts, tryInTurn,
  Search.run_eq_tryInTurn, FirstSuccess, exists_firstSuccess, tryInTurn_eq_ok,
  exists_tryInTurn_of_succeeds, tryInTurn_of_first, tryInTurn_of_none
Open obligations: none
-/
import KeywordHash.Proofs.Search
import KeywordHash.Proofs.Signature.Enumeration

namespace KeywordHash

/-! ### Steps -/

namespace Search

/-- The search after a number of steps, whatever they came to. -/
def afterSteps (search : Search) : Nat → Search
  | 0 => search
  | count + 1 => (search.afterSteps count).step.2

/-- A step takes the first of the signatures that are left and reports the attempt at it. -/
theorem step_of_signatures_cons {search : Search} {signature : Signature} {rest : List Signature}
    (h : search.enumeration.signatures = signature :: rest) :
    ∃ following : Enumeration, following.signatures = rest
      ∧ search.step = ((assign search.keywords signature search.maxTries).map (Step.attempt signature),
          { search with enumeration := following, tried := search.tried + 1 }) := by
  rw [step]
  cases hNext : search.enumeration.next? with
  | none =>
      rw [Enumeration.next?_eq_none_iff.1 hNext] at h
      cases h
  | some next =>
      obtain ⟨tried, following⟩ := next
      rw [Enumeration.signatures_of_next hNext] at h
      cases h
      exact ⟨following, rfl, rfl⟩

/-- Without a signature that is left, a step gives up and changes nothing. -/
theorem step_of_signatures_nil {search : Search} (h : search.enumeration.signatures = []) :
    search.step = (.ok .giveUp, search) := by
  rw [step, Enumeration.next?_eq_none_iff.2 h]

/-- What a number of steps keeps of a search and what it uses up. -/
structure Behind (search after : Search) (count : Nat) : Prop where
  keywords_eq : after.keywords = search.keywords
  maxTries_eq : after.maxTries = search.maxTries
  signatures_eq : after.enumeration.signatures = search.enumeration.signatures.drop count
  tried_eq : after.tried = search.tried + min count search.enumeration.signatures.length

/-- One more step uses up one more signature, unless none is left. -/
theorem Behind.step {search after : Search} {count : Nat} (behind : Behind search after count) :
    Behind search after.step.2 (count + 1) := by
  obtain ⟨keywords_eq, maxTries_eq, signatures_eq, tried_eq⟩ := behind
  cases hLeft : search.enumeration.signatures.drop count with
  | nil =>
      have length_le := List.drop_eq_nil_iff.1 hLeft
      rw [step_of_signatures_nil (signatures_eq.trans hLeft)]
      refine ⟨keywords_eq, maxTries_eq, ?_, ?_⟩
      · rw [signatures_eq, hLeft, List.drop_eq_nil_of_le (Nat.le_succ_of_le length_le)]
      · rw [tried_eq, Nat.min_eq_right length_le, Nat.min_eq_right (Nat.le_succ_of_le length_le)]
  | cons signature rest =>
      have count_lt : count < search.enumeration.signatures.length := by
        apply Nat.lt_of_not_le
        intro length_le
        rw [List.drop_eq_nil_of_le length_le] at hLeft
        cases hLeft
      obtain ⟨following, following_eq, hStep⟩ :=
        step_of_signatures_cons (signatures_eq.trans hLeft)
      rw [hStep]
      refine ⟨keywords_eq, maxTries_eq, ?_, ?_⟩
      · rw [following_eq, ← List.tail_drop, hLeft, List.tail_cons]
      · dsimp only
        omega

theorem behind_afterSteps (search : Search) (count : Nat) :
    Behind search (search.afterSteps count) count := by
  induction count with
  | zero => exact ⟨rfl, rfl, rfl, by rw [Nat.zero_min]; rfl⟩
  | succ count ih => exact ih.step

/-- How a search goes on for ever, if it has the given signatures to try on the keywords. -/
structure Course (search : Search) (keywords : List Keyword) (maxTries : Nat)
    (signatures : List Signature) : Prop where
  /-- Each step in turn makes the attempt at the signature in its place and reports the outcome. -/
  attempt : ∀ count signature, signatures[count]? = some signature →
    ∃ assignment, assign keywords signature maxTries = .ok assignment
      ∧ (search.afterSteps count).step
        = (.ok (.attempt signature assignment), search.afterSteps (count + 1))
  /-- The count of a search is that of the signatures that were taken. -/
  tried_eq : ∀ count, (search.afterSteps count).tried = min count signatures.length
  /-- Behind the last signature every step gives up and leaves the search as it is. -/
  giveUp : ∀ count, signatures.length ≤ count →
    (search.afterSteps count).step = (.ok .giveUp, search.afterSteps count)

/-- A search has this course if no attempt faults. -/
theorem course_of_attempts {search : Search} (tried_eq : search.tried = 0)
    (attempts : ∀ signature, ∃ assignment,
      assign search.keywords signature search.maxTries = .ok assignment) :
    search.Course search.keywords search.maxTries search.enumeration.signatures where
  attempt := by
    intro count signature hSignature
    have behind := search.behind_afterSteps count
    obtain ⟨count_lt, rfl⟩ := List.getElem?_eq_some_iff.1 hSignature
    have hLeft := behind.signatures_eq.trans (List.drop_eq_getElem_cons count_lt)
    obtain ⟨following, _, hStep⟩ := step_of_signatures_cons hLeft
    obtain ⟨assignment, hAssign⟩ := attempts search.enumeration.signatures[count]
    rw [behind.keywords_eq, behind.maxTries_eq, hAssign] at hStep
    refine ⟨assignment, hAssign, Prod.ext ?_ rfl⟩
    rw [hStep]
    rfl
  tried_eq := by
    intro count
    rw [(search.behind_afterSteps count).tried_eq, tried_eq, Nat.zero_add]
  giveUp := by
    intro count length_le
    apply step_of_signatures_nil
    rw [(search.behind_afterSteps count).signatures_eq, List.drop_eq_nil_of_le length_le]

end Search

/-! ### Runs -/

/-- Try the signatures of a list in turn, behind those that were tried before, until values are found. -/
def tryInTurn (keywords : List Keyword) (maxTries tried : Nat) : List Signature → Except Error Found
  | [] => .error (.gaveUp tried)
  | signature :: rest =>
      match assign keywords signature maxTries with
      | .error fault => .error (.abandoned fault)
      | .ok (.success values table adjustments) =>
          .ok
            { signature := signature, values := values, table := table, adjustments := adjustments
              signaturesTried := tried + 1 }
      | .ok (.unresolvable _ _) => tryInTurn keywords maxTries (tried + 1) rest
      | .ok (.triesExhausted _) => tryInTurn keywords maxTries (tried + 1) rest

/-- A run tries the signatures that are left in turn. The induction is on these signatures, one of which
    is taken by each step. -/
theorem Search.run_eq_tryInTurn (search : Search) :
    search.run = tryInTurn search.keywords search.maxTries search.tried
      search.enumeration.signatures := by
  generalize hSignatures : search.enumeration.signatures = signatures
  induction signatures generalizing search with
  | nil =>
      rw [run_eq, step_of_signatures_nil hSignatures]
      rfl
  | cons signature rest ih =>
      obtain ⟨following, following_eq, hStep⟩ := step_of_signatures_cons hSignatures
      have hRun := ih { search with enumeration := following, tried := search.tried + 1 } following_eq
      rw [run_eq, hStep, tryInTurn]
      cases assign search.keywords signature search.maxTries with
      | error fault => rfl
      | ok assignment =>
          cases assignment with
          | success values table adjustments => rfl
          | unresolvable keyword other => exact hRun
          | triesExhausted tries => exact hRun

/-- An attempt at the signature finds values. -/
def Succeeds (keywords : List Keyword) (maxTries : Nat) (signature : Signature) : Prop :=
  ∃ values table adjustments,
    assign keywords signature maxTries = .ok (.success values table adjustments)

/-- The first signature of a list at which an attempt succeeds stands in the given position, and this is
    what the attempt finds. -/
structure FirstSuccess (keywords : List Keyword) (maxTries : Nat) (signatures : List Signature)
    (position : Nat) (found : Found) : Prop where
  signature_eq : signatures[position]? = some found.signature
  assign_eq : assign keywords found.signature maxTries
    = .ok (.success found.values found.table found.adjustments)
  first : ∀ earlier ∈ signatures.take position, ¬ Succeeds keywords maxTries earlier

section

variable {keywords : List Keyword} {maxTries tried : Nat}

/-- One more signature in front, at which the attempt does not succeed, moves the first success by one
    position. -/
theorem FirstSuccess.cons {signature : Signature} {rest : List Signature} {position : Nat}
    {found : Found} (success : FirstSuccess keywords maxTries rest position found)
    (fails : ¬ Succeeds keywords maxTries signature) :
    FirstSuccess keywords maxTries (signature :: rest) (position + 1) found where
  signature_eq := success.signature_eq
  assign_eq := success.assign_eq
  first := by
    rw [List.take_succ_cons, List.forall_mem_cons]
    exact ⟨fails, success.first⟩

/-- An attempt that ended in another way did not succeed. -/
theorem not_succeeds {signature : Signature} {assignment : Assignment}
    (h : assign keywords signature maxTries = .ok assignment)
    (other : ∀ values table adjustments, assignment ≠ .success values table adjustments) :
    ¬ Succeeds keywords maxTries signature := by
  rintro ⟨values, table, adjustments, hSuccess⟩
  rw [h] at hSuccess
  injection hSuccess with same
  exact other values table adjustments same

/-- A signature at which the attempt ends without success is passed over. -/
theorem tryInTurn_cons_of_other {signature : Signature} {rest : List Signature}
    {assignment : Assignment} (h : assign keywords signature maxTries = .ok assignment)
    (other : ∀ values table adjustments, assignment ≠ .success values table adjustments) :
    tryInTurn keywords maxTries tried (signature :: rest)
      = tryInTurn keywords maxTries (tried + 1) rest := by
  rw [tryInTurn, h]
  cases assignment with
  | success values table adjustments => exact absurd rfl (other values table adjustments)
  | unresolvable keyword owner => rfl
  | triesExhausted tries => rfl

/-- If there is a signature at which an attempt succeeds, one of them is the first. -/
theorem exists_firstSuccess {signatures : List Signature} (tried : Nat)
    (h : ∃ signature ∈ signatures, Succeeds keywords maxTries signature) :
    ∃ position found, FirstSuccess keywords maxTries signatures position found
      ∧ found.signaturesTried = tried + position + 1 := by
  induction signatures generalizing tried with
  | nil =>
      obtain ⟨_, hMember, _⟩ := h
      cases hMember
  | cons signature rest ih =>
      by_cases succeeds : Succeeds keywords maxTries signature
      · obtain ⟨values, table, adjustments, hAssign⟩ := succeeds
        exact ⟨0, ⟨signature, values, table, adjustments, tried + 1⟩, ⟨rfl, hAssign, by simp⟩, rfl⟩
      · obtain ⟨later, hLater, laterSucceeds⟩ := h
        have inRest : later ∈ rest := (List.mem_cons.1 hLater).resolve_left fun same =>
          succeeds (same ▸ laterSucceeds)
        obtain ⟨position, found, success, tried_eq⟩ := ih (tried + 1) ⟨later, inRest, laterSucceeds⟩
        exact ⟨position + 1, found, success.cons succeeds, by omega⟩

/-- What is found by trying signatures in turn comes from the first success. -/
theorem tryInTurn_eq_ok {signatures : List Signature} {found : Found}
    (h : tryInTurn keywords maxTries tried signatures = .ok found) :
    ∃ position, FirstSuccess keywords maxTries signatures position found
      ∧ found.signaturesTried = tried + position + 1 := by
  induction signatures generalizing tried with
  | nil => cases h
  | cons signature rest ih =>
      have goOn : ∀ assignment, assign keywords signature maxTries = .ok assignment →
          (∀ values table adjustments, assignment ≠ .success values table adjustments) →
          ∃ position, FirstSuccess keywords maxTries (signature :: rest) position found
            ∧ found.signaturesTried = tried + position + 1 := by
        intro assignment hAssign other
        rw [tryInTurn_cons_of_other hAssign other] at h
        obtain ⟨position, success, tried_eq⟩ := ih h
        exact ⟨position + 1, success.cons (not_succeeds hAssign other), by omega⟩
      cases hAssign : assign keywords signature maxTries with
      | error fault =>
          rw [tryInTurn, hAssign] at h
          cases h
      | ok assignment =>
          cases assignment with
          | success values table adjustments =>
              rw [tryInTurn, hAssign] at h
              cases h
              exact ⟨0, ⟨rfl, hAssign, by simp⟩, rfl⟩
          | unresolvable keyword owner => exact goOn _ hAssign (by simp)
          | triesExhausted tries => exact goOn _ hAssign (by simp)

/-- Values are found no later than at a signature at which an attempt succeeds, if no attempt in front of it
    faults. -/
theorem exists_tryInTurn_of_succeeds {signatures : List Signature} {position : Nat}
    {signature : Signature}
    (attempts : ∀ earlier ∈ signatures.take position, ∃ assignment,
      assign keywords earlier maxTries = .ok assignment)
    (hSignature : signatures[position]? = some signature)
    (succeeds : Succeeds keywords maxTries signature) :
    ∃ found, tryInTurn keywords maxTries tried signatures = .ok found
      ∧ found.signaturesTried ≤ tried + position + 1 := by
  induction signatures generalizing tried position with
  | nil => cases hSignature
  | cons first rest ih =>
      by_cases early : Succeeds keywords maxTries first
      · obtain ⟨values, table, adjustments, hAssign⟩ := early
        rw [tryInTurn, hAssign]
        exact ⟨_, rfl, by dsimp only; omega⟩
      · cases position with
        | zero =>
            cases hSignature
            exact absurd succeeds early
        | succ position =>
            rw [List.take_succ_cons, List.forall_mem_cons] at attempts
            obtain ⟨assignment, hAssign⟩ := attempts.1
            have other : ∀ values table adjustments,
                assignment ≠ .success values table adjustments := by
              rintro values table adjustments rfl
              exact early ⟨values, table, adjustments, hAssign⟩
            rw [tryInTurn_cons_of_other hAssign other]
            obtain ⟨found, hFound, tried_le⟩ := @ih (tried + 1) position attempts.2 hSignature
            exact ⟨found, hFound, by omega⟩

variable (attempts : ∀ signature, ∃ assignment, assign keywords signature maxTries = .ok assignment)

include attempts

/-- If no attempt faults, a signature without success is passed over. -/
theorem tryInTurn_cons_of_not {signature : Signature} {rest : List Signature}
    (fails : ¬ Succeeds keywords maxTries signature) :
    tryInTurn keywords maxTries tried (signature :: rest)
      = tryInTurn keywords maxTries (tried + 1) rest := by
  obtain ⟨assignment, hAssign⟩ := attempts signature
  apply tryInTurn_cons_of_other hAssign
  rintro values table adjustments rfl
  exact fails ⟨values, table, adjustments, hAssign⟩

/-- If no attempt faults, the first success is what is found by trying in turn. -/
theorem tryInTurn_of_first {signatures : List Signature} {position : Nat} {found : Found}
    (success : FirstSuccess keywords maxTries signatures position found)
    (tried_eq : found.signaturesTried = tried + position + 1) :
    tryInTurn keywords maxTries tried signatures = .ok found := by
  induction signatures generalizing tried position with
  | nil => cases success.signature_eq
  | cons signature rest ih =>
      obtain ⟨signature_eq, assign_eq, first⟩ := success
      cases position with
      | zero =>
          cases signature_eq
          rw [tryInTurn, assign_eq]
          dsimp only
          rw [← Nat.add_zero tried, ← tried_eq]
      | succ position =>
          rw [List.take_succ_cons, List.forall_mem_cons] at first
          rw [tryInTurn_cons_of_not attempts first.1]
          exact ih ⟨signature_eq, assign_eq, first.2⟩ (by omega)

/-- If no attempt succeeds, trying in turn gives up behind the last signature. -/
theorem tryInTurn_of_none {signatures : List Signature}
    (fail : ∀ signature ∈ signatures, ¬ Succeeds keywords maxTries signature) :
    tryInTurn keywords maxTries tried signatures = .error (.gaveUp (tried + signatures.length)) := by
  induction signatures generalizing tried with
  | nil => rfl
  | cons signature rest ih =>
      rw [List.forall_mem_cons] at fail
      rw [tryInTurn_cons_of_not attempts fail.1, ih fail.2, List.length_cons, Nat.add_right_comm,
        Nat.add_assoc]

end

end KeywordHash
