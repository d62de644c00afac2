/-
Module: KeywordHash.Proofs.Outcome
Layer: Proofs
Purpose: Operations that return a value or fail, taken apart and put together: an operation in two parts
  succeeds by way of its first part, also if it is run on a state, a list of operations succeeds if each
  one does, and steps along a list end in a state that each of them keeps in order, or fail as one of them
  does.
Imports: KeywordHash.Error
Trusted boundary: none
Main exports: ok_bind, exists_ok_of_bind, run_bind_of_ok, run_bind_of_error, exists_ok_of_map,
  mapM_eq_ok, filterMapM_eq_nil, foldlM_eq_ok, foldlM_outcome, invariant_of_foldlM, orFault_eq_ok
Open obligations: none
-/
import KeywordHash.Error

namespace KeywordHash

variable {ε α β : Type}

@[simp]
theorem ok_bind (a : α) (next : α → Except ε β) : (Except.ok a >>= next) = next a := rfl

/-- An operation in two parts succeeds by way of the first part. -/
theorem exists_ok_of_bind {first : Except ε α} {second : α → Except ε β} {b : β}
    (h : first >>= second = .ok b) : ∃ a, first = .ok a ∧ second a = .ok b := by
  cases first with
  | error _ => cases h
  | ok a => exact ⟨a, rfl, h⟩

section

variable {σ : Type} {first : ExceptT ε (StateM σ) α} {second : α → ExceptT ε (StateM σ) β}
  {state after : σ}

/-- The second part of a program goes on from the state that the first part leaves. -/
theorem run_bind_of_ok {a : α} (h : first.run.run state = (.ok a, after)) :
    (first >>= second).run.run state = (second a).run.run after := by
  rw [ExceptT.run_bind, StateT.run_bind, h]
  rfl

/-- If the first part fails, the program ends there. -/
theorem run_bind_of_error {error : ε} (h : first.run.run state = (.error error, after)) :
    (first >>= second).run.run state = (.error error, after) := by
  rw [ExceptT.run_bind, StateT.run_bind, h]
  rfl

end

/-- An operation whose value is passed on through a function succeeds itself. -/
theorem exists_ok_of_map {first : Except ε α} {passOn : α → β} {b : β}
    (h : first.map passOn = .ok b) : ∃ a, first = .ok a ∧ passOn a = b := by
  cases first with
  | error _ => cases h
  | ok a =>
      cases h
      exact ⟨a, rfl, rfl⟩

/-- If an operation succeeds on each member of a list, it succeeds on the list. -/
theorem mapM_eq_ok {operation : α → Except ε β} {result : α → β} {list : List α}
    (h : ∀ a ∈ list, operation a = .ok (result a)) :
    list.mapM operation = .ok (list.map result) := by
  induction list with
  | nil => rfl
  | cons a rest ih =>
      rw [List.forall_mem_cons] at h
      rw [List.mapM_cons, h.1, ok_bind, ih h.2, ok_bind]
      rfl

/-- If an operation succeeds without a value on each member of a list, it leaves nothing of the list. -/
theorem filterMapM_eq_nil {operation : α → Except ε (Option β)} {list : List α}
    (h : ∀ a ∈ list, operation a = .ok none) : list.filterMapM operation = .ok [] := by
  induction list with
  | nil => rfl
  | cons a rest ih =>
      rw [List.forall_mem_cons] at h
      rw [List.filterMapM_cons, h.1, ok_bind]
      exact ih h.2

/-- If no step along a list fails, all of them together do not. -/
theorem foldlM_eq_ok {σ : Type} {step : σ → α → Except ε σ} {next : σ → α → σ} {list : List α}
    (h : ∀ a ∈ list, ∀ state, step state a = .ok (next state a)) (start : σ) :
    list.foldlM step start = .ok (list.foldl next start) := by
  induction list generalizing start with
  | nil => rfl
  | cons a rest ih =>
      rw [List.forall_mem_cons] at h
      rw [List.foldlM_cons, h.1, ok_bind, ih h.2, List.foldl_cons]

/-- Steps are taken along a list, each of which keeps an invariant of the state and the part of the list
    that is left, or fails in one of some ways. Then all of them together do. -/
theorem foldlM_outcome {σ : Type} {step : σ → α → Except ε σ} {invariant : σ → List α → Prop}
    {failure : ε → Prop}
    (keeps : ∀ state a rest, invariant state (a :: rest) →
      (∃ after, step state a = .ok after ∧ invariant after rest)
        ∨ ∃ error, step state a = .error error ∧ failure error)
    {list : List α} {start : σ} (initially : invariant start list) :
    (∃ final, list.foldlM step start = .ok final ∧ invariant final [])
      ∨ ∃ error, list.foldlM step start = .error error ∧ failure error := by
  induction list generalizing start with
  | nil => exact Or.inl ⟨start, rfl, initially⟩
  | cons a rest ih =>
      rw [List.foldlM_cons]
      rcases keeps start a rest initially with ⟨after, hStep, kept⟩ | ⟨error, hStep, fails⟩
      · rw [hStep, ok_bind]
        exact ih kept
      · rw [hStep]
        exact Or.inr ⟨error, rfl, fails⟩

/-- An invariant that every step along a list keeps, whatever comes behind it, holds in the end. -/
theorem invariant_of_foldlM {σ : Type} {step : σ → α → Except ε σ} {invariant : σ → Prop} {list : List α}
    (keeps : ∀ a ∈ list, ∀ state after, step state a = .ok after → invariant state → invariant after)
    {start final : σ} (initially : invariant start) (h : list.foldlM step start = .ok final) :
    invariant final := by
  induction list generalizing start with
  | nil =>
      cases h
      exact initially
  | cons a rest ih =>
      rw [List.forall_mem_cons] at keeps
      rw [List.foldlM_cons] at h
      obtain ⟨after, hStep, hRest⟩ := exists_ok_of_bind h
      exact ih keeps.2 (keeps.1 start after hStep initially) hRest

/-- A step that may fault and does not is passed on. -/
theorem orFault_eq_ok {result : Except Fault α} {a : α} (h : orFault result = .ok a) :
    result = .ok a := by
  cases result with
  | error fault => cases h
  | ok b =>
      cases h
      rfl

end KeywordHash
