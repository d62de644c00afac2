/-
Module: KeywordHash.Proofs.Keyword.Definitions
Layer: Proofs
Purpose: What is known of the keywords that are read from a text, whatever the text is: their texts are
  distinct, not empty and of ASCII characters (`Keyword.Usable`), and together they are no longer than the
  text, which has a byte for each line up to theirs. Reading only ever fails because a key is defined
  again.
Imports: KeywordHash.Keyword.Definitions, KeywordHash.Proofs.Keyword.Validity,
  KeywordHash.Proofs.Outcome, KeywordHash.Proofs.Text.Line,
  Mathlib.Algebra.Order.BigOperators.Group.List, Mathlib.Algebra.Order.Group.Nat,
  Mathlib.Algebra.Ring.Nat
Trusted boundary: none
Main exports: Keyword.Usable, Keyword.totalLength, Line.key_of_classify, Definitions.Redefined,
  Definitions.Within, Definitions.Within.addLine, Definitions.parse_outcome,
  Definitions.usable_of_parse, Definitions.linesWithin_of_parse
Open obligations: none
-/
import KeywordHash.Keyword.Definitions
import KeywordHash.Proofs.Keyword.Validity
import KeywordHash.Proofs.Outcome
import KeywordHash.Proofs.Text.Line
import Mathlib.Algebra.Order.BigOperators.Group.List
import Mathlib.Algebra.Order.Group.Nat
import Mathlib.Algebra.Ring.Nat

namespace KeywordHash

namespace Keyword

/-- The keyword lists that can be given a hash, but for the empty list. -/
structure Usable (keywords : List Keyword) : Prop where
  text_ne_empty : ∀ keyword ∈ keywords, keyword.text ≠ ""
  isAscii : ∀ keyword ∈ keywords, keyword.isAscii
  nodup : (keywords.map (·.text)).Nodup

theorem usable_nil : Usable [] where
  text_ne_empty := by simp
  isAscii := by simp
  nodup := by simp

/-- One more keyword is usable if it is one on its own and its text is new. -/
theorem Usable.append {keywords : List Keyword} {keyword : Keyword} (usable : Usable keywords)
    (text_ne_empty : keyword.text ≠ "") (isAscii : keyword.isAscii)
    (new : find? keywords keyword.text = none) : Usable (keywords ++ [keyword]) where
  text_ne_empty := by
    intro other hOther
    rcases List.mem_append.1 hOther with before | last
    · exact usable.text_ne_empty other before
    · rwa [List.mem_singleton.1 last]
  isAscii := by
    intro other hOther
    rcases List.mem_append.1 hOther with before | last
    · exact usable.isAscii other before
    · rwa [List.mem_singleton.1 last]
  nodup := by
    rw [List.map_append, List.nodup_append]
    refine ⟨usable.nodup, by simp, ?_⟩
    rintro text hText other hOther rfl
    obtain ⟨earlier, hEarlier, rfl⟩ := List.mem_map.1 hText
    have same : earlier.text = keyword.text := by simpa using hOther
    exact absurd same (by simpa using List.find?_eq_none.1 new earlier hEarlier)

/-- A list with a keyword in it can be given a hash if it is usable. -/
theorem Usable.valid {keywords : List Keyword} (usable : Usable keywords) (ne_nil : keywords ≠ []) :
    Valid keywords where
  ne_nil := ne_nil
  text_ne_empty := usable.text_ne_empty
  isAscii := usable.isAscii
  nodup := usable.nodup

/-- The lengths of all keywords, added up. -/
def totalLength (keywords : List Keyword) : Nat :=
  (keywords.map length).sum

theorem totalLength_append (keywords : List Keyword) (keyword : Keyword) :
    totalLength (keywords ++ [keyword]) = totalLength keywords + keyword.length := by
  simp [totalLength]

theorem length_le_totalLength {keywords : List Keyword} {keyword : Keyword} (h : keyword ∈ keywords) :
    keyword.length ≤ totalLength keywords :=
  List.single_le_sum (fun _ _ => Nat.zero_le _) _ (List.mem_map_of_mem h)

end Keyword

/-! ### Lines -/

/-- Keys are ASCII. -/
theorem isKeyCharacter_ascii {c : Char} (h : isKeyCharacter c) : c.toNat < 128 := by
  rw [isKeyCharacter, Bool.or_eq_true, decide_eq_true_iff] at h
  rcases h with alphanumeric | rfl
  · rcases Bool.or_eq_true_iff.1 alphanumeric with letter | digit
    · rcases Bool.or_eq_true_iff.1 letter with upper | lower
      · have range : c.val ≥ 'A'.val ∧ c.val ≤ 'Z'.val := of_decide_eq_true upper
        exact Nat.lt_of_le_of_lt (UInt32.le_iff_toNat_le.1 range.2) (by decide)
      · have le_last : c.val ≤ 'z'.val := of_decide_eq_true (Bool.and_eq_true_iff.1 lower).2
        exact Nat.lt_of_le_of_lt (UInt32.le_iff_toNat_le.1 le_last) (by decide)
    · exact Nat.lt_of_le_of_lt (Char.isDigit_iff_toNat.1 digit).2 (by decide)
  · decide

namespace Line

/-- A key is as long as it can be, and is not empty. -/
theorem key_of_record? {body key payload : List Char} (h : record? body = some (key, payload)) :
    key ≠ [] ∧ key = body.takeWhile isKeyCharacter := by
  rw [record?] at h
  split at h
  · next hKey _ _ =>
      split at h
      · cases h
        rw [hKey]
        exact ⟨List.cons_ne_nil _ _, rfl⟩
      · cases h
  · cases h

/-- The key of a record is not empty, is made of key characters, and is a part of the line. -/
theorem key_of_classify {raw key payload : List Char} (h : classify raw = .record key payload) :
    key ≠ [] ∧ (∀ c ∈ key, isKeyCharacter c) ∧ key.length ≤ raw.length := by
  rw [classify] at h
  split at h
  · cases h
  · cases h
  · split at h
    · next hRecord =>
        cases h
        obtain ⟨ne_nil, rfl⟩ := key_of_record? hRecord
        have part : ((Text.trimStart raw).takeWhile isKeyCharacter).Sublist raw :=
          (List.takeWhile_sublist _).trans (List.dropWhile_sublist _)
        exact ⟨ne_nil, List.all_eq_true.1 List.all_takeWhile, part.length_le⟩
    · cases h

end Line

/-! ### Keywords with a key for a text -/

namespace Keyword

variable {keyword : Keyword} {key : List Char} (hText : keyword.text = String.ofList key)
  (ascii : ∀ c ∈ key, c.toNat < 128)

include hText ascii

theorem bytes_of_key : keyword.bytes = key.map Char.toUInt8 := by
  rw [bytes, hText, Text.bytes_ofList_of_ascii ascii]

theorem length_of_key : keyword.length = key.length := by
  rw [length, ← Text.length_bytes, ← bytes, bytes_of_key hText ascii, List.length_map]

theorem isAscii_of_key : keyword.isAscii := by
  rw [isAscii, bytes_of_key hText ascii, List.all_eq_true]
  intro b hb
  obtain ⟨c, hc, rfl⟩ := List.mem_map.1 hb
  exact Text.isAscii_toUInt8 (ascii c hc)

end Keyword

/-! ### The text -/

namespace Definitions

/-- The error is that of a key that is defined again. -/
def Redefined (error : Error) : Prop :=
  ∃ keyword line firstLine, error = .duplicateKeyword keyword line firstLine

/-- The keywords that were read are usable, and together with the lines that are left they are no longer
    than the given size. -/
structure Within (size : Nat) (definitions : Definitions) (left : List (List Char × Nat)) : Prop where
  usable : Keyword.Usable definitions.keywords
  room : Keyword.totalLength definitions.keywords + (left.map fun line => line.1.length).sum ≤ size

/-- A line adds at most one keyword, whose text is a part of the line, or defines a key again. -/
theorem Within.addLine {size : Nat} {definitions : Definitions} {line : List Char × Nat}
    {rest : List (List Char × Nat)} (within : definitions.Within size (line :: rest)) :
    (∃ after, definitions.addLine line.1 line.2 = .ok after ∧ after.Within size rest)
      ∨ ∃ error, definitions.addLine line.1 line.2 = .error error ∧ Redefined error := by
  obtain ⟨usable, room⟩ := within
  rw [List.map_cons, List.sum_cons] at room
  rw [Definitions.addLine]
  split
  · exact Or.inl ⟨definitions, rfl, usable, by omega⟩
  · exact Or.inl ⟨_, rfl, usable, by dsimp only; omega⟩
  · next key payload hRecord =>
      obtain ⟨ne_nil, keyCharacters, length_le⟩ := Line.key_of_classify hRecord
      dsimp only
      split
      · exact Or.inr ⟨_, rfl, _, _, _, rfl⟩
      · next new =>
          have ascii : ∀ c ∈ key, c.toNat < 128 := fun c hc =>
            isKeyCharacter_ascii (keyCharacters c hc)
          have text_ne_empty : String.ofList key ≠ "" := fun same =>
            ne_nil (String.ofList_eq_empty_iff.1 same)
          refine Or.inl ⟨_, rfl, ?_, ?_⟩
          · exact usable.append text_ne_empty (Keyword.isAscii_of_key rfl ascii) new
          · rw [Keyword.totalLength_append, Keyword.length_of_key rfl ascii]
            omega

/-- Reading a text ends with usable keywords that are no longer than the text, or with a key that is
    defined again. -/
theorem parse_outcome (text : String) :
    (∃ definitions, parse text = .ok definitions ∧ Keyword.Usable definitions.keywords
      ∧ Keyword.totalLength definitions.keywords ≤ text.utf8ByteSize)
      ∨ ∃ error, parse text = .error error ∧ Redefined error := by
  have initially : Within text.utf8ByteSize {} (Text.numberedLines text.toList) :=
    ⟨Keyword.usable_nil, by simpa [Keyword.totalLength] using Text.sum_length_numberedLines_le text⟩
  have outcome := foldlM_outcome (fun _ _ _ within => within.addLine) initially
  rcases outcome with ⟨definitions, hParse, usable, room⟩ | fails
  · exact Or.inl ⟨definitions, hParse, usable, by simpa using room⟩
  · exact Or.inr fails

/-- The keywords that were read are usable, and together they are no longer than the text. -/
theorem usable_of_parse {text : String} {definitions : Definitions}
    (h : parse text = .ok definitions) :
    Keyword.Usable definitions.keywords
      ∧ Keyword.totalLength definitions.keywords ≤ text.utf8ByteSize := by
  rcases parse_outcome text with ⟨others, hParse, usable, total_le⟩ | ⟨error, fails, _⟩
  · cases h.symm.trans hParse
    exact ⟨usable, total_le⟩
  · cases h.symm.trans fails

/-- A line adds no keyword but one of its own number. -/
theorem mem_of_addLine {definitions after : Definitions} {raw : List Char} {number : Nat}
    (h : definitions.addLine raw number = .ok after) {keyword : Keyword}
    (member : keyword ∈ after.keywords) : keyword ∈ definitions.keywords ∨ keyword.line = number := by
  rw [addLine] at h
  split at h
  · cases h
    exact Or.inl member
  · cases h
    exact Or.inl member
  · dsimp only at h
    split at h
    · cases h
    · cases h
      rcases List.mem_append.1 member with before | last
      · exact Or.inl before
      · rw [List.mem_singleton.1 last]
        exact Or.inr rfl

/-- The lines of all keywords are among the first ones, as many as the limit says. -/
def LinesWithin (limit : Nat) (definitions : Definitions) : Prop :=
  ∀ keyword ∈ definitions.keywords, keyword.line ≤ limit

/-- The lines of the keywords are lines of the text, so there is a byte for each line up to them. -/
theorem linesWithin_of_parse {text : String} {definitions : Definitions}
    (h : parse text = .ok definitions) : definitions.LinesWithin text.utf8ByteSize := by
  have initially : LinesWithin text.utf8ByteSize {} := fun keyword hKeyword => by cases hKeyword
  have keeps : ∀ line ∈ Text.numberedLines text.toList, ∀ definitions after : Definitions,
      definitions.addLine line.1 line.2 = .ok after → definitions.LinesWithin text.utf8ByteSize →
      after.LinesWithin text.utf8ByteSize := by
    intro line hLine definitions after hAfter within keyword hKeyword
    rcases mem_of_addLine hAfter hKeyword with before | line_eq
    · exact within keyword before
    · rw [line_eq]
      exact Text.number_le_of_mem hLine
  exact invariant_of_foldlM keeps initially h

end Definitions

end KeywordHash
