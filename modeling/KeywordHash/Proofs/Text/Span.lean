/-
Module: KeywordHash.Proofs.Text.Span
Layer: Proofs
Purpose: A text in two parts, the first of which has only characters that pass a test while the second
  begins with one that does not, can be taken apart again (`span_append`), so both parts are told by the
  text (`append_inj_of_span`); parts with a delimiter between them are the most common case. Removing
  blanks takes a text apart in this way, from either end.
Imports: KeywordHash.Text.Blank, Mathlib.Data.List.DropRight
Trusted boundary: none
Main exports: span_append, append_inj_of_span, append_cons_inj, trimStart_append,
  not_blank_of_trimStart, exists_trail, exists_trimEnd_cons, trimEnd_append
Open obligations: none
-/
import KeywordHash.Text.Blank
import Mathlib.Data.List.DropRight

namespace KeywordHash.Text

/-! ### Parts told by a test -/

section

variable {α : Type} {test : α → Bool}

/-- The characters that pass the test end where the second part begins. -/
theorem span_append {first second : List α} (pass : ∀ a ∈ first, test a)
    (stop : ∀ a ∈ second.head?, ¬ test a) :
    (first ++ second).takeWhile test = first ∧ (first ++ second).dropWhile test = second := by
  rw [List.takeWhile_append_of_pos pass, List.dropWhile_append_of_pos pass]
  cases second with
  | nil => exact ⟨List.append_nil first, rfl⟩
  | cons a rest =>
      have fails := stop a rfl
      rw [List.takeWhile_cons_of_neg fails, List.dropWhile_cons_of_neg fails, List.append_nil]
      exact ⟨rfl, rfl⟩

/-- Both parts are told by the whole. -/
theorem append_inj_of_span {first second first' second' : List α} (pass : ∀ a ∈ first, test a)
    (stop : ∀ a ∈ second.head?, ¬ test a) (pass' : ∀ a ∈ first', test a)
    (stop' : ∀ a ∈ second'.head?, ¬ test a) (same : first ++ second = first' ++ second') :
    first = first' ∧ second = second' := by
  obtain ⟨takes, drops⟩ := span_append pass stop
  obtain ⟨takes', drops'⟩ := span_append pass' stop'
  rw [same] at takes drops
  exact ⟨takes.symm.trans takes', drops.symm.trans drops'⟩

end

/-- Parts with a delimiter between them, which is not in the first part, are told by the whole. -/
theorem append_cons_inj {α : Type} {x : α} {first second first' second' : List α} (notMem : x ∉ first)
    (notMem' : x ∉ first') (same : first ++ x :: second = first' ++ x :: second') :
    first = first' ∧ second = second' := by
  classical
  have pass : ∀ {part : List α}, x ∉ part → ∀ a ∈ part, decide (a ≠ x) := fun notMem a ha =>
    decide_eq_true fun same => notMem (same ▸ ha)
  have stop : ∀ {rest : List α}, ∀ a ∈ (x :: rest).head?, ¬ decide (a ≠ x) := by
    rintro _ _ ⟨⟩
    simp
  obtain ⟨first_eq, rest_eq⟩ := append_inj_of_span (pass notMem) stop (pass notMem') stop same
  exact ⟨first_eq, (List.cons.inj rest_eq).2⟩

/-! ### Blanks at the ends -/

/-- The blanks in front of a text that does not begin with one are all that is removed. -/
theorem trimStart_append {padding text : List Char} (blank : ∀ c ∈ padding, isBlank c)
    (begins : ∀ c ∈ text.head?, ¬ isBlank c) : trimStart (padding ++ text) = text :=
  (span_append blank begins).2

/-- What is left begins with a character that is not blank. -/
theorem not_blank_of_trimStart {text rest : List Char} {c : Char} (h : trimStart text = c :: rest) :
    ¬ isBlank c := by
  have stop := List.head?_dropWhile_not isBlank text
  rw [← trimStart, h] at stop
  simpa using stop

/-- Behind what is left there were blanks only. -/
theorem exists_trail (text : List Char) :
    ∃ trail, text = trimEnd text ++ trail ∧ ∀ c ∈ trail, isBlank c :=
  ⟨text.rtakeWhile isBlank, List.rdropWhile_append_rtakeWhile.symm,
    fun _ hc => List.mem_rtakeWhile_imp hc⟩

/-- What is left ends in a character that is not blank. -/
theorem not_blank_of_getLast?_trimEnd {text : List Char} {c : Char}
    (h : (trimEnd text).getLast? = some c) : ¬ isBlank c := by
  have ne_nil : trimEnd text ≠ [] := by
    intro empty
    rw [empty] at h
    cases h
  rw [List.getLast?_eq_getLast_of_ne_nil ne_nil] at h
  cases h
  exact List.rdropWhile_last_not isBlank text ne_nil

/-- A text that begins with a character that is not blank still does. -/
theorem exists_trimEnd_cons {c : Char} (notBlank : ¬ isBlank c) (rest : List Char) :
    ∃ left, trimEnd (c :: rest) = c :: left := by
  obtain ⟨trail, parts, blank⟩ := exists_trail (c :: rest)
  cases hLeft : trimEnd (c :: rest) with
  | nil =>
      rw [hLeft, List.nil_append] at parts
      exact absurd (blank c (parts ▸ List.mem_cons_self)) notBlank
  | cons d left =>
      rw [hLeft, List.cons_append] at parts
      injection parts with same
      exact ⟨left, by rw [same]⟩

/-- The blanks behind a text that does not end in one are all that is removed. -/
theorem trimEnd_append {text trail : List Char} (ends : ∀ c ∈ text.getLast?, ¬ isBlank c)
    (blank : ∀ c ∈ trail, isBlank c) : trimEnd (text ++ trail) = text := by
  have stop : ∀ c ∈ text.reverse.head?, ¬ isBlank c := by rwa [List.head?_reverse]
  have blank' : ∀ c ∈ trail.reverse, isBlank c := fun c hc => blank c (List.mem_reverse.1 hc)
  rw [trimEnd, List.reverse_append, (span_append blank' stop).2, List.reverse_reverse]

end KeywordHash.Text
