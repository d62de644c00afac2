/-
Module: KeywordHash.Proofs.Text.Quoted
Layer: Proofs
Purpose: Quoted text can be read back, whatever characters are taken for unprintable: what is written for
  a character tells the character and where the writing ends (`Written.append_inj`), and no writing
  begins with a double quote, so the text ends at the first one that stands where a character could
  (`quotedBy_append_inj`). What is written has no line feed.
Imports: KeywordHash.Proofs.Text.Delimited, KeywordHash.Text.Quoted
Trusted boundary: none
Main exports: Written, written_escapedBy, Written.append_inj, flatMap_escapedBy_inj,
  quotedBy_append_inj, oneLine_quotedBy
Open obligations: none
-/
import KeywordHash.Proofs.Text.Delimited
import KeywordHash.Text.Quoted

namespace KeywordHash.Text

/-! ### Hexadecimal numerals -/

/-- A numeral of more than one digit is no single digit. -/
theorem toDigits_hex_ne_singleton {n : Nat} (large : 16 ≤ n) (c : Char) : Nat.toDigits 16 n ≠ [c] := by
  intro single
  have lengths := congrArg List.length single
  have front_pos := List.length_pos_iff.2 (@Nat.toDigits_ne_nil (n / 16) 16)
  rw [Nat.toDigits_of_base_le (by decide) large, List.length_append, List.length_singleton,
    List.length_singleton] at lengths
  omega

/-- A hexadecimal numeral tells its number. The induction takes the last digit off. -/
theorem toDigits_hex_inj {m n : Nat} (same : Nat.toDigits 16 m = Nat.toDigits 16 n) : m = n := by
  have digit_inj : ∀ k < 16, ∀ l < 16, Nat.digitChar k = Nat.digitChar l → k = l := by decide
  induction m using Nat.strongRec generalizing n with
  | ind m ih =>
      rcases Nat.lt_or_ge m 16 with small | large
      · rw [Nat.toDigits_of_lt_base small] at same
        rcases Nat.lt_or_ge n 16 with small' | large'
        · rw [Nat.toDigits_of_lt_base small'] at same
          exact digit_inj m small n small' (List.singleton_inj.1 same)
        · exact absurd same.symm (toDigits_hex_ne_singleton large' _)
      · rcases Nat.lt_or_ge n 16 with small' | large'
        · rw [Nat.toDigits_of_lt_base small'] at same
          exact absurd same (toDigits_hex_ne_singleton large _)
        · rw [Nat.toDigits_of_base_le (by decide) large, Nat.toDigits_of_base_le (by decide) large',
            List.append_singleton_inj] at same
          have front_eq := ih (m / 16) (Nat.div_lt_self (by omega) (by decide)) same.1
          have last_eq := digit_inj _ (Nat.mod_lt m (by decide)) _ (Nat.mod_lt n (by decide)) same.2
          omega

/-- The digits of a hexadecimal numeral. -/
theorem exists_of_mem_toDigits_hex {n : Nat} {c : Char} (h : c ∈ Nat.toDigits 16 n) :
    ∃ k < 16, c = Nat.digitChar k := by
  induction n using Nat.strongRec with
  | ind n ih =>
      rcases Nat.lt_or_ge n 16 with small | large
      · rw [Nat.toDigits_of_lt_base small, List.mem_singleton] at h
        exact ⟨n, small, h⟩
      · rw [Nat.toDigits_of_base_le (by decide) large, List.mem_append, List.mem_singleton] at h
        rcases h with front | last
        · exact ih (n / 16) (Nat.div_lt_self (by omega) (by decide)) front
        · exact ⟨n % 16, Nat.mod_lt n (by decide), last⟩

/-- Only digits stand in a hexadecimal numeral. -/
theorem notMem_toDigits_hex {c : Char} (noDigit : ∀ k < 16, c ≠ Nat.digitChar k) (n : Nat) :
    c ∉ Nat.toDigits 16 n := by
  intro member
  obtain ⟨k, k_lt, digit⟩ := exists_of_mem_toDigits_hex member
  exact noDigit k k_lt digit

/-! ### Characters -/

/-- The characters that are written by a name, with their names. -/
def namedCharacters : List (Char × Char) :=
  [('"', '"'), ('\\', '\\'), ('\n', 'n'), ('\r', 'r'), ('\t', 't'), ('\x00', '0')]

/-- How a character can be written between double quotes. -/
inductive Written : Char → List Char → Prop where
  | plain {c : Char} (unnamed : ∀ named ∈ namedCharacters, c ≠ named.1) : Written c [c]
  | named {c name : Char} (h : (c, name) ∈ namedCharacters) : Written c ['\\', name]
  | numbered {c : Char} :
      Written c ('\\' :: 'u' :: '\x7b' :: (Nat.toDigits 16 c.toNat ++ ['\x7d']))

/-- What is written for a character is one of the ways to write it. -/
theorem written_escapedBy (unprintable : Char → Bool) (c : Char) :
    Written c (escapedBy unprintable '"' c) := by
  rw [escapedBy]
  split_ifs with delimiter feed carriageReturn tab null hUnprintable
  · rcases Bool.or_eq_true_iff.1 delimiter with quote | backslash
    · rw [of_decide_eq_true quote]
      exact .named (by decide)
    · rw [of_decide_eq_true backslash]
      exact .named (by decide)
  · exact .named (by rw [feed]; decide)
  · exact .named (by rw [carriageReturn]; decide)
  · exact .named (by rw [tab]; decide)
  · have null' : c = '\x00' := Char.toNat_inj.1 null
    exact .named (by rw [null']; decide)
  · exact .numbered
  · apply Written.plain
    have null' : c ≠ '\x00' := fun same => null (congrArg Char.toNat same)
    simp only [Bool.or_eq_true, decide_eq_true_eq, not_or] at delimiter
    simpa [namedCharacters] using ⟨delimiter.1, delimiter.2, feed, carriageReturn, tab, null'⟩

namespace Written

/-- No character is written with a double quote first. -/
theorem quote_cons_ne {c : Char} {code : List Char} (h : Written c code) (rest rest' : List Char) :
    '"' :: rest ≠ code ++ rest' := by
  intro same
  cases h with
  | plain unnamed =>
      injection same with quote _
      exact unnamed ('"', '"') (by decide) quote.symm
  | named | numbered =>
      injection same with quote _
      exact absurd quote (by decide)

/-- What is written has no line feed. -/
theorem noFeed {c : Char} {code : List Char} (h : Written c code) : '\n' ∉ code := by
  cases h with
  | plain unnamed =>
      rw [List.mem_singleton]
      exact fun same => unnamed ('\n', 'n') (by decide) same.symm
  | @named name h =>
      have names_noFeed : ∀ named ∈ namedCharacters, '\n' ≠ named.2 := by decide
      simpa using names_noFeed _ h
  | numbered =>
      have digits_noFeed : '\n' ∉ Nat.toDigits 16 c.toNat := notMem_toDigits_hex (by decide) _
      simpa using digits_noFeed

/-- What is written tells the character and where the writing ends. A backslash only begins the writing
    of a name or a number, names are distinct and none is the letter that a number begins with, and a
    number ends at the first closing brace. -/
theorem append_inj {c c' : Char} {code code' rest rest' : List Char} (h : Written c code)
    (h' : Written c' code') (same : code ++ rest = code' ++ rest') : c = c' ∧ rest = rest' := by
  have backslash_named : ('\\', '\\') ∈ namedCharacters := by decide
  have names_inj : ∀ one ∈ namedCharacters, ∀ other ∈ namedCharacters,
      one.2 = other.2 → one.1 = other.1 := by decide
  have names_ne : ∀ named ∈ namedCharacters, named.2 ≠ 'u' := by decide
  have brace_notMem := notMem_toDigits_hex (c := '\x7d') (by decide)
  cases h with
  | plain unnamed =>
      cases h' with
      | plain =>
          injection same with character_eq rest_eq
          exact ⟨character_eq, rest_eq⟩
      | named | numbered =>
          injection same with backslash _
          exact absurd backslash (unnamed _ backslash_named)
  | named hName =>
      cases h' with
      | plain unnamed' =>
          injection same with backslash _
          exact absurd backslash.symm (unnamed' _ backslash_named)
      | named hName' =>
          injection same with _ behind_eq
          injection behind_eq with name_eq rest_eq
          exact ⟨names_inj _ hName _ hName' name_eq, rest_eq⟩
      | numbered =>
          injection same with _ behind_eq
          injection behind_eq with name_eq _
          exact absurd name_eq (names_ne _ hName)
  | numbered =>
      cases h' with
      | plain unnamed' =>
          injection same with backslash _
          exact absurd backslash.symm (unnamed' _ backslash_named)
      | named hName' =>
          injection same with _ behind_eq
          injection behind_eq with name_eq _
          exact absurd name_eq.symm (names_ne _ hName')
      | numbered =>
          simp only [List.cons_append, List.append_assoc, List.cons.injEq, true_and,
            List.nil_append] at same
          obtain ⟨digits_eq, rest_eq⟩ := append_cons_inj (brace_notMem _) (brace_notMem _) same
          exact ⟨Char.toNat_inj.1 (toDigits_hex_inj digits_eq), rest_eq⟩

end Written

/-! ### Texts -/

/-- What is written of a text up to the closing quote tells the text, and where it ends. The induction is
    on the texts together. -/
theorem flatMap_escapedBy_inj {unprintable : Char → Bool} {text text' rest rest' : List Char}
    (same : text.flatMap (escapedBy unprintable '"') ++ '"' :: rest
      = text'.flatMap (escapedBy unprintable '"') ++ '"' :: rest') : text = text' ∧ rest = rest' := by
  induction text generalizing text' with
  | nil =>
      cases text' with
      | nil => exact ⟨rfl, (List.cons.inj same).2⟩
      | cons c' text' =>
          rw [List.flatMap_cons, List.append_assoc] at same
          exact absurd same ((written_escapedBy unprintable c').quote_cons_ne _ _)
  | cons c text ih =>
      cases text' with
      | nil =>
          rw [List.flatMap_cons, List.append_assoc] at same
          exact absurd same.symm ((written_escapedBy unprintable c).quote_cons_ne _ _)
      | cons c' text' =>
          simp only [List.flatMap_cons, List.append_assoc] at same
          obtain ⟨rfl, behind_eq⟩ := (written_escapedBy unprintable c).append_inj
            (written_escapedBy unprintable c') same
          obtain ⟨rfl, rest_eq⟩ := ih behind_eq
          exact ⟨rfl, rest_eq⟩

theorem toList_quotedBy (unprintable : Char → Bool) (text : String) : (quotedBy unprintable text).toList
    = '"' :: (text.toList.flatMap (escapedBy unprintable '"') ++ ['"']) := by
  rw [quotedBy, String.toList_ofList, List.cons_append]

/-- Quoted text tells the text, and where it ends. -/
theorem quotedBy_append_inj {unprintable : Char → Bool} {text text' rest rest' : String}
    (same : quotedBy unprintable text ++ rest = quotedBy unprintable text' ++ rest') :
    text = text' ∧ rest = rest' := by
  have same' := congrArg String.toList same
  simp only [String.toList_append, toList_quotedBy, List.cons_append, List.append_assoc,
    List.nil_append, List.cons.injEq, true_and] at same'
  obtain ⟨text_eq, rest_eq⟩ := flatMap_escapedBy_inj same'
  exact ⟨String.toList_injective text_eq, String.toList_injective rest_eq⟩

/-- Quoted text has no line feed. -/
theorem oneLine_quotedBy (unprintable : Char → Bool) (text : String) :
    OneLine (quotedBy unprintable text) := by
  rw [OneLine, toList_quotedBy]
  intro member
  have inText : '\n' ∈ text.toList.flatMap (escapedBy unprintable '"') := by simpa using member
  obtain ⟨c, _, hc⟩ := List.mem_flatMap.1 inText
  exact (written_escapedBy unprintable c).noFeed hc

end KeywordHash.Text
