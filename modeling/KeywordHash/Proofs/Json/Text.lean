/-
Module: KeywordHash.Proofs.Json.Text
Layer: Proofs
Purpose: Strings that are written are read back (`reads_text`), whatever characters they have. Each
  character is written as an escape or as it is; read back, either gives the bytes of the character
  again, so the bytes that are read are those of the string.
Imports: KeywordHash.Json.Layout, KeywordHash.Json.Reader, KeywordHash.Proofs.Json.Reads,
  KeywordHash.Proofs.Outcome, KeywordHash.Proofs.Text.Bytes
Trusted boundary: none
Main exports: textContentAfter_escaped, textBody_content, bytes_text, reads_text
Open obligations: none
-/
import KeywordHash.Json.Layout
import KeywordHash.Json.Reader
import KeywordHash.Proofs.Json.Reads
import KeywordHash.Proofs.Outcome
import KeywordHash.Proofs.Text.Bytes

namespace KeywordHash.Json

/-! ### Bytes that stand for themselves -/

/-- Bytes that stand for themselves in a string. -/
def Plain (b : UInt8) : Prop :=
  b ≠ code '"' ∧ b ≠ code '\\' ∧ ¬ b < 0x20

theorem textContentAfter_plain {plain : List UInt8} (allPlain : ∀ b ∈ plain, Plain b)
    (content s : List UInt8) :
    textContentAfter content (plain ++ s) = textContentAfter (plain.reverse ++ content) s := by
  induction plain generalizing content with
  | nil => rfl
  | cons b rest ih =>
      rw [List.forall_mem_cons] at allPlain
      obtain ⟨ne_quote, ne_backslash, not_control⟩ := allPlain.1
      rw [List.cons_append, textContentAfter, if_neg ne_quote, if_neg ne_backslash,
        if_neg not_control, ih allPlain.2, List.reverse_cons, List.append_assoc]
      rfl

/-- A character that needs no escape is made of bytes that stand for themselves. -/
theorem plain_of_mem_encoded {c : Char} (ne_quote : c ≠ '"') (ne_backslash : c ≠ '\\')
    (not_control : ¬ c.toNat < 0x20) {b : UInt8} (hb : b ∈ String.utf8EncodeChar c) : Plain b := by
  rcases Nat.lt_or_ge c.toNat 128 with ascii | past
  · rw [Text.encoded_ascii ascii, List.mem_singleton] at hb
    have toNat_eq : b.toNat = c.toNat := by
      rw [hb]
      exact UInt8.toNat_ofNat_of_lt' (Nat.lt_trans ascii (by decide))
    refine ⟨?_, ?_, ?_⟩
    · rintro rfl
      exact ne_quote (Char.toNat_inj.1 toNat_eq.symm)
    · rintro rfl
      exact ne_backslash (Char.toNat_inj.1 toNat_eq.symm)
    · rwa [UInt8.lt_iff_toNat_lt, toNat_eq]
  · have b_ge := Text.le_of_mem_encoded past hb
    refine ⟨?_, ?_, ?_⟩
    · rintro rfl
      exact absurd b_ge (by decide)
    · rintro rfl
      exact absurd b_ge (by decide)
    · intro b_lt
      exact absurd (UInt8.lt_of_le_of_lt b_ge b_lt) (by decide)

/-! ### Escapes -/

theorem textContentAfter_escape {rest escaped left : List UInt8}
    (h : escape rest = .ok (escaped, left)) (content : List UInt8) :
    textContentAfter content (code '\\' :: rest)
      = textContentAfter (escaped.reverse ++ content) left := by
  rw [textContentAfter, if_neg (by decide), if_pos rfl]
  split
  · next hError =>
      rw [h] at hError
      cases hError
  · next hRead =>
      rw [h] at hRead
      cases hRead
      rfl

/-- An escape by a letter or a mark gives the character that it stands for. -/
theorem textContentAfter_simple (c mark : Char) {b : UInt8}
    (stands : simpleEscape? (code mark) = some b) (encoded : String.utf8EncodeChar c = [b])
    (content s : List UInt8) :
    textContentAfter content (code '\\' :: code mark :: s)
      = textContentAfter ((String.utf8EncodeChar c).reverse ++ content) s := by
  rw [encoded]
  apply textContentAfter_escape
  rw [escape, stands]

theorem hexDigit?_digitChar : ∀ n < 16, hexDigit? (code (Nat.digitChar n)) = some n := by
  decide

theorem digitChar_ascii : ∀ n < 16, (Nat.digitChar n).toNat < 128 := by
  decide

theorem hexPair_ascii {n : Nat} (n_lt : n < 256) : ∀ d ∈ Layout.hexPair n, d.toNat < 128 := by
  rw [Layout.hexPair, List.forall_mem_cons, List.forall_mem_singleton]
  exact ⟨digitChar_ascii _ (by omega), digitChar_ascii _ (by omega)⟩

/-- The escape of a control character by its code gives the character. -/
theorem escape_control {c : Char} (control : c.toNat < 0x20) (s : List UInt8) :
    escape (code 'u' :: code '0' :: code '0' :: code (Nat.digitChar (c.toNat / 16))
        :: code (Nat.digitChar (c.toNat % 16)) :: s)
      = .ok (String.utf8EncodeChar c, s) := by
  have hCode : hexCode? (code '0') (code '0') (code (Nat.digitChar (c.toNat / 16)))
      (code (Nat.digitChar (c.toNat % 16))) = some c.toNat := by
    rw [hexCode?, hexDigit?_digitChar _ (by omega), hexDigit?_digitChar _ (by omega)]
    show some (((0 * 16 + 0) * 16 + c.toNat / 16) * 16 + c.toNat % 16) = some c.toNat
    congr 1
    omega
  have hRead : hexCode (code '0' :: code '0' :: code (Nat.digitChar (c.toNat / 16))
      :: code (Nat.digitChar (c.toNat % 16)) :: s) = .ok (c.toNat, s) := by
    rw [hexCode, hCode]
  have notTrailing : ¬ isTrailingSurrogate c.toNat = true := by
    simp [isTrailingSurrogate]
    omega
  have notLeading : ¬ isLeadingSurrogate c.toNat = true := by
    simp [isLeadingSurrogate]
    omega
  have hPoint : codePoint (code '0' :: code '0' :: code (Nat.digitChar (c.toNat / 16))
      :: code (Nat.digitChar (c.toNat % 16)) :: s) = .ok (c.toNat, s) := by
    rw [codePoint, hRead, ok_bind]
    simp only [if_neg notTrailing, if_neg notLeading]
    rfl
  have notSimple : simpleEscape? (code 'u') = none := by decide
  rw [escape, notSimple]
  simp only [if_true]
  rw [hPoint, ok_bind]
  simp only [Char.ofNat_toNat]
  rfl

/-! ### Written strings -/

/-- A written character is read as the bytes of the character. The cases are those in which a character
    is written. -/
theorem textContentAfter_escaped (c : Char) (content s : List UInt8) :
    textContentAfter content ((Layout.escaped c).flatMap String.utf8EncodeChar ++ s)
      = textContentAfter ((String.utf8EncodeChar c).reverse ++ content) s := by
  have char_eq : ∀ n, c.toNat = n → c = Char.ofNat n := fun n h => by rw [← h, Char.ofNat_toNat]
  fun_cases Layout.escaped c with
  | case1 h =>
      rw [h]
      exact textContentAfter_simple _ '"' rfl rfl content s
  | case2 _ h =>
      rw [h]
      exact textContentAfter_simple _ '\\' rfl rfl content s
  | case3 _ _ h =>
      rw [char_eq _ h]
      exact textContentAfter_simple _ 'b' rfl rfl content s
  | case4 _ _ _ h =>
      rw [char_eq _ h]
      exact textContentAfter_simple _ 'f' rfl rfl content s
  | case5 _ _ _ _ h =>
      rw [h]
      exact textContentAfter_simple _ 'n' rfl rfl content s
  | case6 _ _ _ _ _ h =>
      rw [h]
      exact textContentAfter_simple _ 'r' rfl rfl content s
  | case7 _ _ _ _ _ _ h =>
      rw [h]
      exact textContentAfter_simple _ 't' rfl rfl content s
  | case8 _ _ _ _ _ _ _ control =>
      have start_ascii : ∀ d ∈ ['\\', 'u', '0', '0'], d.toNat < 128 := by
        rw [List.forall_mem_cons, List.forall_mem_cons, List.forall_mem_cons,
          List.forall_mem_singleton]
        decide
      have pair_ascii : ∀ d ∈ Layout.hexPair c.toNat, d.toNat < 128 :=
        hexPair_ascii (Nat.lt_trans control (by decide))
      have ascii := List.forall_mem_append.2 ⟨start_ascii, pair_ascii⟩
      rw [Text.flatMap_encoded ascii, ← textContentAfter_escape (escape_control control s)]
      rfl
  | case9 ne_quote ne_backslash _ _ _ _ _ not_control =>
      rw [List.flatMap_singleton]
      exact textContentAfter_plain
        (fun b hb => plain_of_mem_encoded ne_quote ne_backslash not_control hb) content s

/-- The bytes of a written string between its quotes. -/
def textContent (text : String) : List UInt8 :=
  (text.toList.flatMap Layout.escaped).flatMap String.utf8EncodeChar

theorem bytes_text (text : String) :
    Text.bytes (Layout.text text) = code '"' :: (textContent text ++ [code '"']) := by
  rw [Layout.text, Text.bytes_ofList, List.flatMap_append, List.flatMap_cons]
  rfl

theorem textContentAfter_content (characters : List Char) (content rest : List UInt8) :
    textContentAfter content ((characters.flatMap Layout.escaped).flatMap String.utf8EncodeChar
        ++ code '"' :: rest)
      = .ok (content.reverse ++ characters.flatMap String.utf8EncodeChar, rest) := by
  induction characters generalizing content with
  | nil =>
      rw [List.flatMap_nil, List.flatMap_nil, List.nil_append, textContentAfter, if_pos rfl,
        List.append_nil]
  | cons c characters ih =>
      rw [List.flatMap_cons, List.flatMap_append, List.append_assoc, textContentAfter_escaped, ih,
        List.flatMap_cons, List.reverse_append, List.reverse_reverse, List.append_assoc]

/-- A written string is read back to its closing quote. -/
theorem textBody_content (text : String) (rest : List UInt8) :
    textBody (textContent text ++ code '"' :: rest) = .ok (text, rest) := by
  have bytes_eq : text.toList.flatMap String.utf8EncodeChar = Text.bytes text := by
    rw [← Text.bytes_ofList, String.ofList_toList]
  rw [textBody, textContent, textContentAfter_content, ok_bind]
  simp only [List.reverse_nil, List.nil_append, bytes_eq, Text.ofBytes?_bytes]
  rfl

theorem reads_text (written : String) : Reads text (Layout.text written) written where
  skips := skipsBlanks_of_peek _
  begins := ⟨code '"', _, bytes_text written, by decide, by decide⟩
  read := by
    intro rest _
    rw [bytes_text, List.cons_append, text, peek_cons (by decide), ok_bind, List.append_assoc]
    exact textBody_content written rest

end KeywordHash.Json
