/-
Module: KeywordHash.Proofs.Json.Ensures
Layer: Proofs
Purpose: What holds of every value that a reader returns, whatever it is given to read (`Ensures`). Numbers
  are within the bounds that they are fitted to; arrays hold what their elements ensure, and objects what
  each of their members keeps.
Imports: KeywordHash.Json.Reader, Mathlib.Algebra.Group.Int.Defs
Trusted boundary: none
Main exports: Ensures, ensures_natural, ensures_integer, ensures_optional, ensures_element,
  ensures_elements, ensures_exactly, ensures_array, ensures_members, ensures_once, ensures_record
Open obligations: none
-/
import KeywordHash.Json.Reader
import Mathlib.Algebra.Group.Int.Defs

namespace KeywordHash.Json

/-- Whatever the reader returns has the property. -/
def Ensures {α : Type} (reader : Reader α) (property : α → Prop) : Prop :=
  ∀ s a rest, reader s = .ok (a, rest) → property a

variable {α σ : Type} {item : Reader α} {property : α → Prop}

/-- Nothing is known of what is read. -/
theorem ensures_true (reader : Reader α) : Ensures reader (fun _ => True) :=
  fun _ _ _ _ => trivial

/-! ### Scalars -/

theorem ensures_fitted {fit : Int → Option α} (fits : ∀ n a, fit n = some a → property a) :
    Ensures (fitted fit) property := by
  intro s a rest h
  obtain ⟨⟨b, ahead⟩, _, h⟩ := exists_of_bind_eq_ok h
  dsimp only at h
  split at h
  · obtain ⟨⟨n, behind⟩, _, h⟩ := exists_of_bind_eq_ok h
    dsimp only at h
    split at h
    · next hFit =>
        cases h
        obtain ⟨m, _, hFit⟩ := Option.bind_eq_some_iff.1 hFit
        exact fits m a hFit
    · cases h
  · cases h

theorem ensures_natural : Ensures natural (· < wordLimit) := by
  apply ensures_fitted
  intro n a hFit
  split at hFit
  · next bounds =>
      cases hFit
      omega
  · cases hFit

theorem ensures_integer : Ensures integer (fun n => -2 ^ 31 ≤ n ∧ n < 2 ^ 31) := by
  apply ensures_fitted
  intro n a hFit
  split at hFit
  · next bounds =>
      cases hFit
      omega
  · cases hFit

theorem ensures_optional (ensures : Ensures item property) :
    Ensures (optional item) (fun read => ∀ a, read = some a → property a) := by
  intro s read rest h
  obtain ⟨⟨b, ahead⟩, _, h⟩ := exists_of_bind_eq_ok h
  dsimp only at h
  split at h
  · cases h
  · split at h
    · obtain ⟨behind, _, h⟩ := exists_of_bind_eq_ok h
      cases h
      intro a ha
      cases ha
    · obtain ⟨⟨a, behind⟩, hItem, h⟩ := exists_of_bind_eq_ok h
      cases h
      intro read hRead
      cases hRead
      exact ensures _ _ _ hItem

/-! ### Arrays -/

theorem ensures_nextElement (ensures : Ensures item property) (isFirst : Bool) :
    Ensures (nextElement item isFirst) (fun read => ∀ a, read = some a → property a) := by
  intro s read rest h
  obtain ⟨⟨b, ahead⟩, _, h⟩ := exists_of_bind_eq_ok h
  dsimp only at h
  split at h
  · cases h
    intro a ha
    cases ha
  · obtain ⟨⟨a, behind⟩, hItem, h⟩ := exists_of_bind_eq_ok h
    cases h
    intro read hRead
    cases hRead
    exact ensures _ _ _ hItem

theorem ensures_element (ensures : Ensures item property) (isFirst : Bool) :
    Ensures (element item isFirst) property := by
  intro s a rest h
  obtain ⟨⟨read, ahead⟩, hNext, h⟩ := exists_of_bind_eq_ok h
  cases read with
  | none => cases h
  | some read =>
      cases h
      exact ensures_nextElement ensures isFirst _ _ _ hNext _ rfl

/-- All elements have the property if those that were read before have it. The induction is on the
    limit. -/
theorem ensures_elementsAfter (ensures : Ensures item property) {read : List α} {limit : Nat}
    {isFirst : Bool} (before : ∀ a ∈ read, property a) :
    Ensures (elementsAfter item read limit isFirst) (fun list => ∀ a ∈ list, property a) := by
  induction limit generalizing read isFirst with
  | zero =>
      intro s list rest h
      cases h
  | succ limit ih =>
      intro s list rest h
      rw [elementsAfter] at h
      split at h
      · cases h
      · cases h
        intro a ha
        exact before a (List.mem_reverse.1 ha)
      · next a behind hNext =>
          have first := ensures_nextElement ensures isFirst _ _ _ hNext a rfl
          exact ih (List.forall_mem_cons.2 ⟨first, before⟩) _ _ _ h

theorem ensures_elements (ensures : Ensures item property) (limit : Nat) :
    Ensures (elements limit item) (fun list => ∀ a ∈ list, property a) :=
  ensures_elementsAfter ensures (by simp)

theorem ensures_exactly (ensures : Ensures item property) (count : Nat) (isFirst : Bool) :
    Ensures (exactly item count isFirst) (fun list => ∀ a ∈ list, property a) := by
  induction count generalizing isFirst with
  | zero =>
      intro s list rest h
      cases h
      simp
  | succ count ih =>
      intro s list rest h
      rw [exactly] at h
      obtain ⟨⟨a, ahead⟩, hElement, h⟩ := exists_of_bind_eq_ok h
      obtain ⟨⟨others, behind⟩, hOthers, h⟩ := exists_of_bind_eq_ok h
      cases h
      exact List.forall_mem_cons.2
        ⟨ensures_element ensures isFirst _ _ _ hElement, ih false _ _ _ hOthers⟩

theorem ensures_array (ensures : Ensures item property) : Ensures (array item) property := by
  intro s a rest h
  obtain ⟨⟨b, ahead⟩, _, h⟩ := exists_of_bind_eq_ok h
  dsimp only at h
  split at h
  · cases h
  · split at h
    · obtain ⟨⟨content, behind⟩, hContent, h⟩ := exists_of_bind_eq_ok h
      obtain ⟨closed, _, h⟩ := exists_of_bind_eq_ok h
      cases h
      exact ensures _ _ _ hContent
    · cases h

/-! ### Objects -/

/-- What each member keeps holds behind the last of them. The induction is on the limit. -/
theorem ensures_members {member : String → σ → Reader σ} {invariant : σ → Prop}
    (keeps : ∀ key state, invariant state → Ensures (member key state) invariant) (limit : Nat)
    {start : σ} (initially : invariant start) : Ensures (members limit member start) invariant := by
  have from_any : ∀ isFirst, Ensures (membersFrom member limit start isFirst) invariant := by
    induction limit generalizing start with
    | zero =>
        intro isFirst s state rest h
        cases h
    | succ limit ih =>
        intro isFirst s state rest h
        rw [membersFrom] at h
        split at h
        · cases h
        · cases h
          exact initially
        · next key behind _ =>
            split at h
            · cases h
            · next following _ hMember =>
                exact ih (keeps key start initially _ _ _ hMember) false _ _ _ h
  exact from_any true

theorem ensures_once (ensures : Ensures item property) (former : Option α) :
    Ensures (once former item) property := by
  intro s a rest h
  cases former with
  | some _ => cases h
  | none =>
      obtain ⟨ahead, _, h⟩ := exists_of_bind_eq_ok h
      exact ensures _ _ _ h

theorem ensures_record {object fields : Reader α} (of_object : Ensures object property)
    (of_fields : Ensures fields property) : Ensures (record object fields) property := by
  intro s a rest h
  obtain ⟨⟨b, ahead⟩, _, h⟩ := exists_of_bind_eq_ok h
  dsimp only at h
  split at h
  · cases h
  · split at h
    · obtain ⟨⟨content, behind⟩, hContent, h⟩ := exists_of_bind_eq_ok h
      obtain ⟨closed, _, h⟩ := exists_of_bind_eq_ok h
      cases h
      exact of_object _ _ _ hContent
    · exact ensures_array of_fields _ _ _ h

end KeywordHash.Json
