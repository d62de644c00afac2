/-
Module: KeywordHash.Proofs.Keyword.Validity
Layer: Proofs
Purpose: What the checks on a keyword list establish. The checks go through the list with a record of
  what they have seen; here that record is taken out of the statement, and what is left is a property of
  the list alone (`validate_eq_ok_iff`). In a list with distinct texts a text tells its keyword.
Imports: KeywordHash.Keyword.Validity, KeywordHash.Proofs.Record, Mathlib.Data.List.Nodup
Trusted boundary: none
Main exports: Keyword.Valid, Keyword.validate_eq_ok_iff, Keyword.find?_eq_some_iff
Open obligations: none
-/
import KeywordHash.Keyword.Validity
import KeywordHash.Proofs.Record
import Mathlib.Data.List.Nodup

namespace KeywordHash.Keyword

/-- The keyword lists that can be given a hash. -/
structure Valid (keywords : List Keyword) : Prop where
  ne_nil : keywords ≠ []
  text_ne_empty : ∀ keyword ∈ keywords, keyword.text ≠ ""
  isAscii : ∀ keyword ∈ keywords, keyword.isAscii
  nodup : (keywords.map (·.text)).Nodup

/-- A keyword without a flaw is not empty and has ASCII characters only. -/
theorem flaw?_eq_none_iff {keyword : Keyword} :
    keyword.flaw? = none ↔ keyword.text ≠ "" ∧ keyword.isAscii := by
  rw [flaw?]
  split
  · next empty => simp [String.isEmpty_iff.1 empty]
  · next nonempty =>
      have text_ne : keyword.text ≠ "" := fun same => nonempty (String.isEmpty_iff.2 same)
      split
      · next notAscii => simp_all
      · next ascii => simp_all

/-- No flaw is found if and only if no keyword has one. -/
theorem firstFlaw?_eq_none_iff {keywords : List Keyword} :
    firstFlaw? keywords = none ↔ ∀ keyword ∈ keywords, keyword.flaw? = none := by
  induction keywords with
  | nil => simp [firstFlaw?]
  | cons keyword rest ih =>
      rw [firstFlaw?]
      cases hFlaw : keyword.flaw? with
      | some flaw => simp [hFlaw]
      | none => simp [hFlaw, ih]

/-- The check for repeated texts, from any record of earlier texts. The induction is on the keywords
    that are left, and the record grows by the text of each of them. -/
theorem checkUniqueFrom_eq_ok_iff {index : Nat} {seen : List (String × Nat)}
    {keywords : List Keyword} :
    checkUniqueFrom index seen keywords = .ok () ↔ Fresh (·.text) seen keywords := by
  induction keywords generalizing index seen with
  | nil => exact iff_of_true rfl fresh_nil
  | cons keyword rest ih =>
      rw [checkUniqueFrom, fresh_cons_iff (b := keyword.reportedLine index),
        ← @ih (index + 1)]
      cases hSeen : seen.lookup keyword.text with
      | some line => simp
      | none => simp

/-- The checks pass on exactly the lists that can be given a hash. -/
theorem validate_eq_ok_iff {keywords : List Keyword} :
    validate keywords = .ok () ↔ Valid keywords := by
  have sound : validate keywords = .ok () ↔
      keywords ≠ [] ∧ firstFlaw? keywords = none ∧ checkUnique keywords = .ok () := by
    rw [validate]
    split
    · next empty => simp [List.isEmpty_iff.1 empty]
    · next nonempty =>
        have ne_nil : keywords ≠ [] := fun same => nonempty (List.isEmpty_iff.2 same)
        split
        · next hFlaw => simp [hFlaw]
        · next hFlaw => simp [hFlaw, ne_nil]
  rw [sound, firstFlaw?_eq_none_iff, checkUnique, checkUniqueFrom_eq_ok_iff,
    fresh_iff_nodup]
  constructor
  · intro ⟨ne_nil, flawless, distinct⟩
    exact
      { ne_nil := ne_nil
        text_ne_empty := fun keyword h => (flaw?_eq_none_iff.1 (flawless keyword h)).1
        isAscii := fun keyword h => (flaw?_eq_none_iff.1 (flawless keyword h)).2
        nodup := distinct }
  · intro valid
    refine ⟨valid.ne_nil, fun keyword h => ?_, valid.nodup⟩
    exact flaw?_eq_none_iff.2 ⟨valid.text_ne_empty keyword h, valid.isAscii keyword h⟩

/-- Among keywords with distinct texts, a scan for a text finds the only keyword that has it. -/
theorem find?_eq_some_iff {keywords : List Keyword} (nodup : (keywords.map (·.text)).Nodup)
    {text : String} {keyword : Keyword} :
    find? keywords text = some keyword ↔ keyword ∈ keywords ∧ keyword.text = text := by
  constructor
  · intro h
    exact ⟨List.mem_of_find?_eq_some h, by simpa using List.find?_some h⟩
  · rintro ⟨hKeyword, hText⟩
    have isSome : (find? keywords text).isSome :=
      List.find?_isSome.2 ⟨keyword, hKeyword, decide_eq_true hText⟩
    obtain ⟨first, hFirst⟩ := Option.isSome_iff_exists.1 isSome
    have first_text : first.text = text := by simpa using List.find?_some hFirst
    have same := List.inj_on_of_nodup_map nodup (List.mem_of_find?_eq_some hFirst) hKeyword
      (first_text.trans hText.symm)
    rw [hFirst, same]

/-- No keyword in front of another one has its text. -/
theorem find?_eq_none_of_nodup {keywords : List Keyword} {keyword : Keyword}
    (nodup : ((keywords ++ [keyword]).map (·.text)).Nodup) : find? keywords keyword.text = none := by
  rw [List.map_append, List.nodup_append] at nodup
  refine List.find?_eq_none.2 fun earlier hEarlier same => ?_
  exact nodup.2.2 earlier.text (List.mem_map_of_mem hEarlier) keyword.text (by simp)
    (of_decide_eq_true same)

end KeywordHash.Keyword
