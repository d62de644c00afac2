/-
Module: KeywordHash.Proofs.Keyword.Grammar
Layer: Proofs
Purpose: The grammar of a line of definitions, stated without regard to how lines are read. A record is a
  key, a separator, a payload and a trail of blanks, and there is at most one way to take a line apart
  like this (`Decomposition.unique`). Reading a line finds out what it says by the grammar
  (`means_iff_classify`).
Imports: KeywordHash.Keyword.Definitions, KeywordHash.Proofs.Text.Span
Trusted boundary: none
Main exports: Line.Decomposition, Line.Decomposition.unique, Line.record?_eq_some_iff, Line.Means,
  Line.means_iff_classify
Open obligations: none
-/
import KeywordHash.Keyword.Definitions
import KeywordHash.Proofs.Text.Span

namespace KeywordHash

/-- Keys consist of ASCII letters and digits and the underscore. -/
def KeyCharacter (c : Char) : Prop :=
  ('A' ≤ c ∧ c ≤ 'Z') ∨ ('a' ≤ c ∧ c ≤ 'z') ∨ ('0' ≤ c ∧ c ≤ '9') ∨ c = '_'

theorem isKeyCharacter_iff {c : Char} : isKeyCharacter c ↔ KeyCharacter c := by
  have upper : c.isUpper ↔ 'A' ≤ c ∧ c ≤ 'Z' := decide_eq_true_iff
  have lower : c.isLower ↔ 'a' ≤ c ∧ c ≤ 'z' :=
    Bool.and_eq_true_iff.trans (and_congr decide_eq_true_iff decide_eq_true_iff)
  have digit : c.isDigit ↔ '0' ≤ c ∧ c ≤ '9' :=
    Bool.and_eq_true_iff.trans (and_congr decide_eq_true_iff decide_eq_true_iff)
  have letter : c.isAlpha ↔ c.isUpper ∨ c.isLower := Bool.or_eq_true_iff
  have alphanumeric : c.isAlphanum ↔ c.isAlpha ∨ c.isDigit := Bool.or_eq_true_iff
  rw [isKeyCharacter, Bool.or_eq_true, decide_eq_true_iff, alphanumeric, letter, upper, lower, digit,
    or_assoc, or_assoc, KeyCharacter]

theorem isSeparator_iff {c : Char} : isSeparator c ↔ c = ' ' ∨ c = '\t' := by
  rw [isSeparator, Bool.or_eq_true, decide_eq_true_iff, decide_eq_true_iff]

/-- Separators are blanks. -/
theorem isBlank_of_isSeparator {c : Char} (h : isSeparator c) : Text.isBlank c := by
  rcases isSeparator_iff.1 h with rfl | rfl <;> decide

/-- No key has a separator in it. -/
theorem not_isKeyCharacter_of_isSeparator {c : Char} (h : isSeparator c) : ¬ isKeyCharacter c := by
  rcases isSeparator_iff.1 h with rfl | rfl <;> decide

namespace Line

/-! ### Records -/

/-- The parts of a record. -/
structure Decomposition (body key separator payload trail : List Char) : Prop where
  body_eq : body = key ++ (separator ++ (payload ++ trail))
  key_ne_nil : key ≠ []
  key_characters : ∀ c ∈ key, KeyCharacter c
  separator_ne_nil : separator ≠ []
  separators : ∀ c ∈ separator, c = ' ' ∨ c = '\t'
  payload_ne_nil : payload ≠ []
  payload_begins : ∀ c ∈ payload.head?, ¬ Text.isBlank c
  payload_ends : ∀ c ∈ payload.getLast?, ¬ Text.isBlank c
  trail_blank : ∀ c ∈ trail, Text.isBlank c

namespace Decomposition

variable {body key separator payload trail : List Char}
  (parts : Decomposition body key separator payload trail)

include parts

/-- The key is as long as it can be. -/
theorem span_key :
    body.takeWhile isKeyCharacter = key
      ∧ body.dropWhile isKeyCharacter = separator ++ (payload ++ trail) := by
  rw [parts.body_eq]
  apply Text.span_append
  · exact fun c hc => isKeyCharacter_iff.2 (parts.key_characters c hc)
  · intro c hc
    rw [List.head?_append_of_ne_nil _ parts.separator_ne_nil] at hc
    exact not_isKeyCharacter_of_isSeparator
      (isSeparator_iff.2 (parts.separators c (List.mem_of_mem_head? hc)))

/-- The separator is as long as it can be. -/
theorem span_separator :
    (separator ++ (payload ++ trail)).takeWhile isSeparator = separator
      ∧ (separator ++ (payload ++ trail)).dropWhile isSeparator = payload ++ trail := by
  apply Text.span_append
  · exact fun c hc => isSeparator_iff.2 (parts.separators c hc)
  · intro c hc
    rw [List.head?_append_of_ne_nil _ parts.payload_ne_nil] at hc
    exact fun h => parts.payload_begins c hc (isBlank_of_isSeparator h)

/-- The payload is what is left in front of the trail. -/
theorem trimEnd_payload : Text.trimEnd (payload ++ trail) = payload :=
  Text.trimEnd_append parts.payload_ends parts.trail_blank

/-- A line can be taken apart in one way only. -/
theorem unique {key' separator' payload' trail' : List Char}
    (parts' : Decomposition body key' separator' payload' trail') :
    key' = key ∧ separator' = separator ∧ payload' = payload ∧ trail' = trail := by
  obtain ⟨takesKey, dropsKey⟩ := parts.span_key
  obtain ⟨takesKey', dropsKey'⟩ := parts'.span_key
  rw [takesKey] at takesKey'
  rw [dropsKey] at dropsKey'
  have takesSeparator := parts.span_separator
  have takesSeparator' := parts'.span_separator
  rw [← dropsKey', takesSeparator.1, takesSeparator.2] at takesSeparator'
  obtain ⟨separator_eq, behind_eq⟩ := takesSeparator'
  have payload_eq : payload' = payload := by
    rw [← parts.trimEnd_payload, behind_eq, parts'.trimEnd_payload]
  rw [payload_eq] at behind_eq
  exact ⟨takesKey'.symm, separator_eq.symm, payload_eq, (List.append_cancel_left behind_eq).symm⟩

end Decomposition

/-- A record that is read is what its line is taken apart into. -/
theorem exists_decomposition {body key payload : List Char} (h : record? body = some (key, payload)) :
    ∃ separator trail, Decomposition body key separator payload trail := by
  rw [record?] at h
  split at h
  · next first keyRest s separatorRest c payloadRest hKey hAfterKey hPayload =>
      split at h
      · next wellFormed =>
          cases h
          rw [Bool.and_eq_true_iff, Bool.not_eq_true'] at wellFormed
          have notBlank : ¬ Text.isBlank c := Bool.eq_false_iff.1 wellFormed.2
          obtain ⟨trail, trail_eq, trail_blank⟩ :=
            Text.exists_trail ((body.dropWhile isKeyCharacter).dropWhile isSeparator)
          obtain ⟨left, payload_eq⟩ := Text.exists_trimEnd_cons notBlank payloadRest
          rw [← hPayload] at payload_eq
          refine ⟨(body.dropWhile isKeyCharacter).takeWhile isSeparator, trail, ?_⟩
          constructor
          case body_eq =>
            rw [← trail_eq, List.takeWhile_append_dropWhile, List.takeWhile_append_dropWhile]
          case key_ne_nil =>
            rw [hKey]
            exact List.cons_ne_nil _ _
          case key_characters =>
            exact fun c hc => isKeyCharacter_iff.1 (List.mem_takeWhile_imp hc)
          case separator_ne_nil =>
            rw [hAfterKey, List.takeWhile_cons_of_pos wellFormed.1]
            exact List.cons_ne_nil _ _
          case separators => exact fun c hc => isSeparator_iff.1 (List.mem_takeWhile_imp hc)
          case payload_ne_nil =>
            rw [payload_eq]
            exact List.cons_ne_nil _ _
          case payload_begins =>
            rw [payload_eq]
            rintro _ ⟨⟩
            exact notBlank
          case payload_ends => exact fun c hc => Text.not_blank_of_getLast?_trimEnd hc
          case trail_blank => exact trail_blank
      · cases h
  · cases h

/-- From a line that can be taken apart a record is read, since no part of the line could be longer. -/
theorem Decomposition.record?_eq {body key separator payload trail : List Char}
    (parts : Decomposition body key separator payload trail) : record? body = some (key, payload) := by
  obtain ⟨takesKey, dropsKey⟩ := parts.span_key
  have dropsSeparator := parts.span_separator.2
  have payload_eq := parts.trimEnd_payload
  obtain ⟨first, keyRest, rfl⟩ := List.exists_cons_of_ne_nil parts.key_ne_nil
  obtain ⟨s, separatorRest, rfl⟩ := List.exists_cons_of_ne_nil parts.separator_ne_nil
  obtain ⟨c, payloadRest, rfl⟩ := List.exists_cons_of_ne_nil parts.payload_ne_nil
  have wellFormed : (isSeparator s && !Text.isBlank c) = true := by
    rw [Bool.and_eq_true_iff, Bool.not_eq_true']
    exact ⟨isSeparator_iff.2 (parts.separators s List.mem_cons_self),
      Bool.eq_false_iff.2 (parts.payload_begins c rfl)⟩
  simp only [List.cons_append] at dropsKey dropsSeparator payload_eq
  simp only [record?, takesKey, dropsKey, dropsSeparator, wellFormed, if_true, payload_eq]

/-- A record is read from exactly the lines that can be taken apart, and is what they are taken apart
    into. -/
theorem record?_eq_some_iff {body key payload : List Char} :
    record? body = some (key, payload) ↔
      ∃ separator trail, Decomposition body key separator payload trail := by
  constructor
  · exact exists_decomposition
  · rintro ⟨separator, trail, parts⟩
    exact parts.record?_eq

/-! ### Lines -/

/-- What a line says by the grammar, once the blanks that it begins with are removed. -/
inductive Means (raw : List Char) : Line → Prop where
  | blank (h : ∀ c ∈ Text.trimStart raw, Text.isBlank c) : Means raw .ignored
  | comment (h : (Text.trimStart raw).head? = some '#') : Means raw .ignored
  | record {key separator payload trail : List Char}
      (h : Decomposition (Text.trimStart raw) key separator payload trail) :
      Means raw (.record key payload)
  | malformed (notBlank : ¬ ∀ c ∈ Text.trimStart raw, Text.isBlank c)
      (notComment : (Text.trimStart raw).head? ≠ some '#')
      (notRecord : ∀ key separator payload trail,
        ¬ Decomposition (Text.trimStart raw) key separator payload trail) :
      Means raw .malformed

/-- A line of which something is left that is no comment is a record or malformed. -/
theorem classify_of_body {raw : List Char} {c : Char} {rest : List Char}
    (h : Text.trimStart raw = c :: rest) (notComment : c ≠ '#') :
    classify raw = ((record? (c :: rest)).elim .malformed fun parts => .record parts.1 parts.2) := by
  rw [classify, h]
  split
  · next hNil => cases hNil
  · next hComment =>
      injection hComment with same
      exact absurd same notComment
  · split
    · next hRecord => rw [hRecord, Option.elim_some]
    · next hRecord => rw [hRecord, Option.elim_none]

/-- A record begins with a key. -/
theorem Decomposition.exists_cons {body key separator payload trail : List Char}
    (parts : Decomposition body key separator payload trail) :
    ∃ c rest, body = c :: rest ∧ c ≠ '#' := by
  obtain ⟨c, keyRest, hKey⟩ := List.exists_cons_of_ne_nil parts.key_ne_nil
  refine ⟨c, keyRest ++ (separator ++ (payload ++ trail)), ?_, ?_⟩
  · rw [parts.body_eq, hKey, List.cons_append]
  · rintro rfl
    have keyCharacter := parts.key_characters '#' (hKey ▸ List.mem_cons_self)
    exact absurd (isKeyCharacter_iff.2 keyCharacter) (by decide)

/-- A record is not blank. -/
theorem Decomposition.not_blank {raw key separator payload trail : List Char}
    (parts : Decomposition (Text.trimStart raw) key separator payload trail) :
    ¬ ∀ c ∈ Text.trimStart raw, Text.isBlank c := by
  obtain ⟨c, rest, hBody, _⟩ := parts.exists_cons
  exact fun blank => Text.not_blank_of_trimStart hBody (blank c (hBody ▸ List.mem_cons_self))

/-- A record is no comment. -/
theorem Decomposition.not_comment {raw key separator payload trail : List Char}
    (parts : Decomposition (Text.trimStart raw) key separator payload trail) :
    (Text.trimStart raw).head? ≠ some '#' := by
  obtain ⟨c, rest, hBody, ne_sign⟩ := parts.exists_cons
  rw [hBody, List.head?_cons]
  exact fun comment => ne_sign (Option.some.inj comment)

/-- A line says what it is read as. -/
theorem means_classify (raw : List Char) : Means raw (classify raw) := by
  cases hBody : Text.trimStart raw with
  | nil =>
      rw [classify, hBody]
      exact .blank (by simp [hBody])
  | cons c rest =>
      have notBlank : ¬ ∀ c ∈ Text.trimStart raw, Text.isBlank c := by
        rw [hBody]
        exact fun blank => Text.not_blank_of_trimStart hBody (blank c List.mem_cons_self)
      by_cases hComment : c = '#'
      · rw [classify, hBody, hComment]
        exact .comment (by rw [hBody, hComment, List.head?_cons])
      · rw [classify_of_body hBody hComment]
        cases hRecord : record? (c :: rest) with
        | none =>
            refine .malformed notBlank (by simpa [hBody] using hComment) ?_
            intro key separator payload trail parts
            rw [hBody] at parts
            cases hRecord.symm.trans (record?_eq_some_iff.2 ⟨separator, trail, parts⟩)
        | some keyAndPayload =>
            obtain ⟨separator, trail, parts⟩ := record?_eq_some_iff.1 hRecord
            exact .record (hBody ▸ parts)

/-- A line says one thing only: the ways to say something exclude each other. -/
theorem Means.unique {raw : List Char} {line line' : Line} (hLine : Means raw line)
    (hLine' : Means raw line') : line = line' := by
  cases hLine with
  | blank blank =>
      cases hLine' with
      | blank | comment => rfl
      | record parts => exact absurd blank parts.not_blank
      | malformed notBlank => exact absurd blank notBlank
  | comment comment =>
      cases hLine' with
      | blank | comment => rfl
      | record parts => exact absurd comment parts.not_comment
      | malformed _ notComment => exact absurd comment notComment
  | record parts =>
      cases hLine' with
      | blank blank => exact absurd blank parts.not_blank
      | comment comment => exact absurd comment parts.not_comment
      | record parts' =>
          obtain ⟨rfl, _, rfl, _⟩ := parts'.unique parts
          rfl
      | malformed _ _ notRecord => exact absurd parts (notRecord _ _ _ _)
  | malformed notBlank notComment notRecord =>
      cases hLine' with
      | blank blank => exact absurd blank notBlank
      | comment comment => exact absurd comment notComment
      | record parts => exact absurd parts (notRecord _ _ _ _)
      | malformed => rfl

/-- Reading a line finds out what it says. -/
theorem means_iff_classify {raw : List Char} {line : Line} : Means raw line ↔ classify raw = line := by
  constructor
  · exact (means_classify raw).unique
  · rintro rfl
    exact means_classify raw

/-- A no-break space is blank, but does not separate a key from a payload. -/
example : Means ['i', 'f', '\u00a0', 'I', 'f'] .malformed :=
  means_iff_classify.2 (by decide)

end Line

end KeywordHash
