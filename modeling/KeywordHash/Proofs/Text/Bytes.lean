/-
Module: KeywordHash.Proofs.Text.Bytes
Layer: Proofs
Purpose: The bytes of a text, character by character. An ASCII character is one byte, its code; all
  bytes of any other character are past ASCII, so none of them is taken for a mark. A text that is read
  from bytes has these, and ASCII bytes are always those of a text.
Imports: KeywordHash.Text.Bytes
Trusted boundary: none
Main exports: bytes_of_ofBytes?, bytes_ofList, encoded_ascii, le_of_mem_encoded, flatMap_encoded,
  bytes_ofList_of_ascii, isAscii_toUInt8, exists_ofBytes?_of_ascii
Open obligations: none
-/
import KeywordHash.Text.Bytes

namespace KeywordHash.Text

/-- A text that is read from bytes has these bytes. -/
theorem bytes_of_ofBytes? {bs : List UInt8} {text : String} (h : ofBytes? bs = some text) :
    bytes text = bs := by
  rw [ofBytes?, String.fromUTF8?] at h
  split at h
  · cases h
    rfl
  · cases h

/-- The bytes of a text are those of its characters. -/
theorem bytes_ofList (characters : List Char) :
    bytes (String.ofList characters) = characters.flatMap String.utf8EncodeChar := by
  rw [bytes, String.toUTF8_eq_toByteArray, String.toByteArray_ofList, List.utf8Encode,
    List.toList_data_toByteArray]

/-- An ASCII character is one byte. -/
theorem encoded_ascii {c : Char} (ascii : c.toNat < 128) :
    String.utf8EncodeChar c = [c.toUInt8] := by
  apply String.utf8EncodeChar_eq_singleton
  rw [Char.utf8Size_eq_one_iff, UInt32.le_iff_toNat_le]
  exact Nat.le_of_lt_succ ascii

/-- Of the bytes of a character past ASCII, the first begins with two bits that are set, and the others
    begin with one. -/
theorem le_of_mem_encoded {c : Char} (past : 128 ≤ c.toNat) {b : UInt8}
    (hb : b ∈ String.utf8EncodeChar c) : 128 ≤ b := by
  have large : ∀ n : Nat, 128 ≤ n → n < 256 → 128 ≤ UInt8.ofNat n := by
    intro n n_ge n_lt
    rwa [UInt8.le_iff_toNat_le, UInt8.toNat_ofNat_of_lt' n_lt]
  have notAscii : ¬ c.val.toNat ≤ 127 := Nat.not_le.2 past
  rw [String.utf8EncodeChar, if_neg notAscii] at hb
  split at hb
  · simp only [List.mem_cons, List.not_mem_nil, or_false] at hb
    rcases hb with rfl | rfl
    all_goals exact large _ (by omega) (by omega)
  · split at hb
    · simp only [List.mem_cons, List.not_mem_nil, or_false] at hb
      rcases hb with rfl | rfl | rfl
      all_goals exact large _ (by omega) (by omega)
    · simp only [List.mem_cons, List.not_mem_nil, or_false] at hb
      rcases hb with rfl | rfl | rfl | rfl
      all_goals exact large _ (by omega) (by omega)

/-- ASCII characters are the bytes of their codes. -/
theorem flatMap_encoded {characters : List Char} (ascii : ∀ c ∈ characters, c.toNat < 128) :
    characters.flatMap String.utf8EncodeChar = characters.map Char.toUInt8 := by
  induction characters with
  | nil => rfl
  | cons c rest ih =>
      rw [List.forall_mem_cons] at ascii
      rw [List.flatMap_cons, encoded_ascii ascii.1, ih ascii.2]
      rfl

theorem bytes_ofList_of_ascii {characters : List Char} (ascii : ∀ c ∈ characters, c.toNat < 128) :
    bytes (String.ofList characters) = characters.map Char.toUInt8 := by
  rw [bytes_ofList, flatMap_encoded ascii]

/-- The code of an ASCII character is an ASCII byte. -/
theorem isAscii_toUInt8 {c : Char} (ascii : c.toNat < 128) : isAscii c.toUInt8 := by
  have code_eq : c.toUInt8.toNat = c.toNat % 2 ^ 8 := UInt32.toNat_toUInt8 c.val
  have code_lt : c.toUInt8.toNat < 128 := by
    rw [code_eq]
    exact Nat.lt_of_le_of_lt (Nat.mod_le _ _) ascii
  exact decide_eq_true (UInt8.lt_iff_toNat_lt.2 code_lt)

/-- The character with an ASCII code has this code, whichever of the 128 it is. -/
theorem toUInt8_ofNat {b : UInt8} (ascii : isAscii b) :
    (Char.ofNat b.toNat).toNat < 128 ∧ (Char.ofNat b.toNat).toUInt8 = b := by
  have each : ∀ n < 128, (Char.ofNat n).toNat < 128 ∧ (Char.ofNat n).toUInt8 = UInt8.ofNat n := by
    decide +kernel
  have b_lt : b.toNat < 128 := UInt8.lt_iff_toNat_lt.1 (of_decide_eq_true ascii)
  rw [← UInt8.ofNat_toNat (x := b)]
  simpa using each b.toNat b_lt

/-- ASCII bytes are those of a text. -/
theorem exists_ofBytes?_of_ascii {bs : List UInt8} (ascii : ∀ b ∈ bs, isAscii b) :
    ∃ text, ofBytes? bs = some text := by
  have characters_ascii : ∀ c ∈ bs.map fun b => Char.ofNat b.toNat, c.toNat < 128 := by
    intro c hc
    obtain ⟨b, hb, rfl⟩ := List.mem_map.1 hc
    exact (toUInt8_ofNat (ascii b hb)).1
  have bytes_eq : bytes (String.ofList (bs.map fun b => Char.ofNat b.toNat)) = bs := by
    rw [bytes_ofList_of_ascii characters_ascii, List.map_map]
    exact (List.map_congr_left fun b hb => (toUInt8_ofNat (ascii b hb)).2).trans bs.map_id
  rw [← bytes_eq, ofBytes?_bytes]
  exact ⟨_, rfl⟩

end KeywordHash.Text
