/-
Module: KeywordHash.Proofs.Json.Number
Layer: Proofs
Purpose: Whole numbers that are written are read back (`reads_number`). A number is written without
  leading zeros and without a fraction or an exponent, so all its digits are its whole part; and a
  number that is a machine word is far from becoming infinite in floating point.
Imports: KeywordHash.Json.Layout, KeywordHash.Json.Reader, KeywordHash.Proofs.Json.Reads,
  KeywordHash.Proofs.Outcome, KeywordHash.Proofs.Text.Bytes, Mathlib.Algebra.Group.Int.Defs
Trusted boundary: none
Main exports: digits, digitsValue_digits, rounded_le, isTooLarge_whole, number_signed, reads_number
Open obligations: none
-/
import KeywordHash.Json.Layout
import KeywordHash.Json.Reader
import KeywordHash.Proofs.Json.Reads
import KeywordHash.Proofs.Outcome
import KeywordHash.Proofs.Text.Bytes
import Mathlib.Algebra.Group.Int.Defs

namespace KeywordHash.Json

/-! ### Written digits -/

/-- The bytes of a number in decimal. -/
def digits (n : Nat) : List UInt8 :=
  (Nat.toDigits 10 n).map Char.toUInt8

theorem isDigit_char {n : Nat} {c : Char} (hc : c ∈ Nat.toDigits 10 n) : c.isDigit :=
  Nat.isDigit_of_mem_toDigits (by decide) (by decide) hc

theorem bounds_of_isDigit {c : Char} (h : c.isDigit) : 48 ≤ c.toNat ∧ c.toNat ≤ 57 := by
  simpa [Char.isDigit, UInt32.le_iff_toNat_le] using h

theorem toNat_of_isDigit {c : Char} (h : c.isDigit) : c.toUInt8.toNat = c.toNat := by
  exact UInt8.toNat_ofNat_of_lt' (Nat.lt_of_le_of_lt (bounds_of_isDigit h).2 (by decide))

theorem bytes_repr (n : Nat) : Text.bytes (Nat.repr n) = digits n := by
  rw [Nat.repr_eq_ofList_toDigits, Text.bytes_ofList_of_ascii, digits]
  intro c hc
  have := bounds_of_isDigit (isDigit_char hc)
  omega

theorem isDigit_of_mem_digits {n : Nat} {b : UInt8} (hb : b ∈ digits n) : isDigit b := by
  obtain ⟨c, hc, rfl⟩ := List.mem_map.1 hb
  have hDigit := isDigit_char hc
  have := bounds_of_isDigit hDigit
  rw [isDigit, Bool.and_eq_true, decide_eq_true_iff, decide_eq_true_iff, UInt8.le_iff_toNat_le,
    UInt8.le_iff_toNat_le, toNat_of_isDigit hDigit]
  exact this

/-- The digits of a number stand for it. -/
theorem digitsValue_digits (n : Nat) : digitsValue (digits n) = n := by
  have value_eq : ∀ characters : List Char, (∀ c ∈ characters, c.isDigit) → ∀ start,
      (characters.map Char.toUInt8).foldl (fun n b => n * 10 + digitValue b) start
        = Nat.ofDigitChars 10 characters start := by
    intro characters
    induction characters with
    | nil => simp
    | cons c rest ih =>
        intro allDigits start
        rw [List.forall_mem_cons] at allDigits
        rw [List.map_cons, List.foldl_cons, ih allDigits.2, Nat.ofDigitChars_cons, digitValue,
          toNat_of_isDigit allDigits.1, Nat.mul_comm]
        rfl
  rw [digitsValue, digits, value_eq _ fun c hc => isDigit_char hc, Nat.ofDigitChars_ten_toDigits]

/-- Only the number zero begins with a zero. -/
theorem toDigits_head {n : Nat} (positive : 0 < n) :
    ∃ c rest, Nat.toDigits 10 n = c :: rest ∧ c ≠ '0' := by
  induction n using Nat.strongRecOn with
  | ind n ih =>
      rw [Nat.toDigits_eq_if (by decide)]
      by_cases single : n < 10
      · refine ⟨Nat.digitChar n, [], if_pos single, ?_⟩
        rw [Ne, Nat.digitChar_eq_zero]
        exact Nat.ne_of_gt positive
      · obtain ⟨c, rest, hHead, c_ne⟩ := ih (n / 10) (by omega) (by omega)
        exact ⟨c, rest ++ [Nat.digitChar (n % 10)], by rw [if_neg single, hHead]; rfl, c_ne⟩

theorem digits_head (n : Nat) : ∃ b tail, digits n = b :: tail ∧ (tail = [] ∨ b ≠ code '0') := by
  by_cases positive : 0 < n
  · obtain ⟨c, rest, hHead, c_ne⟩ := toDigits_head positive
    refine ⟨c.toUInt8, rest.map Char.toUInt8, by rw [digits, hHead, List.map_cons], Or.inr ?_⟩
    have hDigit : c.isDigit := isDigit_char (hHead ▸ List.mem_cons_self)
    intro same
    apply c_ne
    rw [← Char.toNat_inj, ← toNat_of_isDigit hDigit, same]
    rfl
  · refine ⟨code '0', [], ?_, Or.inl rfl⟩
    rw [Nat.eq_zero_of_not_pos positive]
    rfl

/-! ### The size of a number

The value of a machine word has all its digits in the significand, and the factor that a power of ten
would make is one.
-/

namespace Number

theorem le_digitsFrom (digits : List UInt8) (start : Nat) :
    start ≤ digits.foldl (fun n b => n * 10 + digitValue b) start := by
  induction digits generalizing start with
  | nil => exact Nat.le_refl start
  | cons b rest ih =>
      rw [List.foldl_cons]
      exact Nat.le_trans (by omega) (ih (start * 10 + digitValue b))

/-- All digits of a machine word are absorbed. -/
theorem absorb_eq {digits : List UInt8} {start : Nat}
    (small : digits.foldl (fun n b => n * 10 + digitValue b) start < wordLimit) :
    absorb start digits = (digits.foldl (fun n b => n * 10 + digitValue b) start, []) := by
  induction digits generalizing start with
  | nil => rfl
  | cons b rest ih =>
      rw [List.foldl_cons] at small ⊢
      have extended_lt := Nat.lt_of_le_of_lt (le_digitsFrom rest _) small
      rw [absorb]
      simp only [if_pos extended_lt]
      exact ih small

/-- Rounding does not make a number more than three times as great. -/
theorem rounded_le {n : Nat} (positive : n ≠ 0) : rounded n ≤ 3 * n := by
  have unit_le : 2 ^ (n.log2 + 1 - precision) ≤ 2 * n := by
    calc 2 ^ (n.log2 + 1 - precision)
        ≤ 2 ^ (n.log2 + 1) := Nat.pow_le_pow_right (by decide) (Nat.sub_le _ _)
      _ = 2 * 2 ^ n.log2 := by rw [Nat.pow_succ, Nat.mul_comm]
      _ ≤ 2 * n := Nat.mul_le_mul_left 2 (Nat.log2_self_le positive)
  have whole_le := Nat.div_mul_le_self n (2 ^ (n.log2 + 1 - precision))
  simp only [rounded, Nat.one_shiftLeft]
  split
  · rw [Nat.add_mul, Nat.one_mul]
    omega
  · omega

/-- A machine word without fraction and exponent does not become infinite. -/
theorem isTooLarge_whole {digits : List UInt8} (negative : Bool)
    (small : digitsValue digits < wordLimit) :
    isTooLarge { negative := negative, whole := digits, fraction := [], exponent := none } = false := by
  rw [isTooLarge, absorb_eq small]
  show overflows (digitsValue digits) 0 = false
  rw [show (0 : Int) = .ofNat 0 from rfl, overflows]
  by_cases zero : digitsValue digits = 0
  · simp [zero]
  · have product_lt : rounded (digitsValue digits) * rounded (Nat.pow 10 0) < infinityLimit := by
      calc rounded (digitsValue digits) * rounded (Nat.pow 10 0)
          = rounded (digitsValue digits) := Nat.mul_one _
        _ ≤ 3 * digitsValue digits := rounded_le zero
        _ < 3 * wordLimit := by omega
        _ < infinityLimit := by decide +kernel
    have notInfinite : ¬ infinityLimit ≤ rounded (digitsValue digits) * rounded (Nat.pow 10 0) :=
      Nat.not_le.2 product_lt
    rw [decide_eq_false (Nat.not_lt_zero greatestPower), decide_eq_false notInfinite,
      Bool.or_self, Bool.and_false]

end Number

/-! ### Reading written numbers -/

/-- Nothing that ends a value can be a part of a number. -/
theorem not_numeric_of_delimiter {b : UInt8} (h : isBlank b ∨ b = code ',') :
    isDigit b = false ∧ b ≠ code '.' ∧ b ≠ code 'e' ∧ b ≠ code 'E' := by
  have cases_of_blank : isBlank b →
      ((b = code ' ' ∨ b = code '\n') ∨ b = code '\r') ∨ b = code '\t' := by
    simp [isBlank]
  rcases h with blank | rfl
  · rcases cases_of_blank blank with ((rfl | rfl) | rfl) | rfl <;> decide
  · decide

theorem not_blank_of_isDigit {b : UInt8} (h : isDigit b) : isBlank b = false := by
  cases hBlank : isBlank b with
  | false => rfl
  | true =>
      have notDigit := (not_numeric_of_delimiter (Or.inl hBlank)).1
      rw [h] at notDigit
      cases notDigit

section

variable {rest : List UInt8} (delimited : Delimited rest) (atEnd : Defect)

include delimited in
theorem digits_span : rest.takeWhile isDigit = [] ∧ rest.dropWhile isDigit = rest := by
  cases rest with
  | nil => exact ⟨rfl, rfl⟩
  | cons b tail =>
      have notDigit := (not_numeric_of_delimiter (delimited b rfl)).1
      exact ⟨List.takeWhile_cons_of_neg (by simp [notDigit]),
        List.dropWhile_cons_of_neg (by simp [notDigit])⟩

include delimited in
theorem wholePart_digits (n : Nat) : wholePart atEnd (digits n ++ rest) = .ok (digits n, rest) := by
  obtain ⟨b, tail, hDigits, head⟩ := digits_head n
  have allDigits : ∀ d ∈ b :: tail, isDigit d := fun d hd => isDigit_of_mem_digits (hDigits ▸ hd)
  rw [List.forall_mem_cons] at allDigits
  obtain ⟨takes, drops⟩ := digits_span delimited
  have hRead : someDigits atEnd (b :: (tail ++ rest)) = .ok (b :: tail, rest) := by
    rw [someDigits, if_pos allDigits.1, List.takeWhile_append_of_pos allDigits.2,
      List.dropWhile_append_of_pos allDigits.2, takes, drops, List.append_nil]
  rw [hDigits, List.cons_append, wholePart, hRead, ok_bind]
  cases tail with
  | nil => rfl
  | cons second tail =>
      rcases head with none_left | b_ne
      · cases none_left
      · exact if_neg b_ne

include delimited in
theorem fractionPart_delimited : fractionPart atEnd rest = .ok ([], rest) := by
  cases rest with
  | nil => rfl
  | cons b tail => exact if_neg (not_numeric_of_delimiter (delimited b rfl)).2.1

include delimited in
theorem exponentPart_delimited : exponentPart atEnd rest = .ok (none, rest) := by
  cases rest with
  | nil => rfl
  | cons b tail =>
      obtain ⟨_, _, ne_small, ne_capital⟩ := not_numeric_of_delimiter (delimited b rfl)
      exact if_neg (by simp [ne_small, ne_capital])

/-- A number with a sign in front or without one. -/
def signed (negative : Bool) (n : Nat) : List UInt8 :=
  if negative then code '-' :: digits n else digits n

theorem numberSign_signed (negative : Bool) (n : Nat) (rest : List UInt8) :
    numberSign (signed negative n ++ rest) = (negative, digits n ++ rest) := by
  cases negative with
  | true => rfl
  | false =>
      obtain ⟨b, tail, hDigits, _⟩ := digits_head n
      have b_digit : isDigit b := isDigit_of_mem_digits (hDigits ▸ List.mem_cons_self)
      have b_ne : b ≠ code '-' := by
        rintro rfl
        exact absurd b_digit (by decide)
      rw [signed, if_neg Bool.false_ne_true, hDigits, List.cons_append, numberSign, if_neg b_ne]

include delimited in
/-- A number is read in front of anything that ends a value. -/
theorem number_signed (negative : Bool) (n : Nat) :
    number atEnd (signed negative n ++ rest)
      = .ok ({ negative := negative, whole := digits n, fraction := [], exponent := none }, rest) := by
  rw [number, numberSign_signed]
  simp only
  rw [wholePart_digits delimited, ok_bind]
  simp only
  rw [fractionPart_delimited delimited, ok_bind]
  simp only
  rw [exponentPart_delimited delimited, ok_bind]
  rfl

include delimited in
theorem readNumber_signed (negative : Bool) {n : Nat} (small : n < wordLimit) :
    readNumber (signed negative n ++ rest)
      = .ok ({ negative := negative, whole := digits n, fraction := [], exponent := none }, rest) := by
  rw [readNumber, number_signed delimited, ok_bind]
  simp only
  rw [Number.isTooLarge_whole negative (by rwa [digitsValue_digits])]
  rfl

end

/-- The bytes of a whole number are a sign, if it is negative, and digits. -/
theorem bytes_number (i : Int) : Text.bytes (Layout.number i) = signed (i < 0) i.natAbs := by
  cases i with
  | ofNat n => exact bytes_repr n
  | negSucc n =>
      have sign : Text.bytes "-" = [code '-'] := by decide
      rw [Layout.number, Text.bytes_append, bytes_repr, sign,
        decide_eq_true (Int.negSucc_lt_zero n)]
      rfl

/-- The value of a written number is the number. -/
theorem integer?_signed (i : Int) : Number.integer?
    { negative := i < 0, whole := digits i.natAbs, fraction := [], exponent := none } = some i := by
  rw [Number.integer?]
  simp only [digitsValue_digits]
  cases i with
  | ofNat n => simp
  | negSucc n =>
      rw [Int.natAbs_negSucc, decide_eq_true (Int.negSucc_lt_zero n)]
      rfl

theorem signed_head (negative : Bool) (n : Nat) :
    ∃ b tail, signed negative n = b :: tail ∧ (b = code '-' ∨ isDigit b) := by
  cases negative with
  | true => exact ⟨code '-', digits n, rfl, Or.inl rfl⟩
  | false =>
      obtain ⟨b, tail, hDigits, _⟩ := digits_head n
      exact ⟨b, tail, hDigits, Or.inr (isDigit_of_mem_digits (hDigits ▸ List.mem_cons_self))⟩

theorem skipsBlanks_fitted {α : Type} (fit : Int → Option α) : SkipsBlanks (fitted fit) :=
  skipsBlanks_of_peek _

/-- A whole number is read back where it fits, if it is no larger than a machine word. -/
theorem reads_number {α : Type} {fit : Int → Option α} {i : Int} {a : α}
    (small : i.natAbs < wordLimit) (fits : fit i = some a) :
    Reads (fitted fit) (Layout.number i) a := by
  obtain ⟨b, tail, hSigned, hb⟩ := signed_head (i < 0) i.natAbs
  have solid : isBlank b = false := by
    rcases hb with rfl | hDigit
    · decide
    · exact not_blank_of_isDigit hDigit
  have starts : (b = code '-' || isDigit b) = true := by simpa using hb
  constructor
  · exact skipsBlanks_fitted fit
  · refine ⟨b, tail, by rw [bytes_number, hSigned], solid, ?_⟩
    rintro rfl
    exact absurd starts (by decide)
  · intro rest delimited
    have hRead := readNumber_signed delimited (i < 0) small
    rw [bytes_number, hSigned, List.cons_append] at *
    rw [fitted, peek_cons solid, ok_bind]
    simp only [if_pos starts]
    rw [hRead, ok_bind]
    simp only [integer?_signed, Option.bind_some, fits]
    rfl

theorem reads_natural {n : Nat} (small : n < wordLimit) : Reads natural (Layout.number n) n := by
  apply reads_number (i := n) small
  simp [small]

theorem reads_integer {i : Int} (large : -2 ^ 31 ≤ i) (small : i < 2 ^ 31) :
    Reads integer (Layout.number i) i := by
  apply reads_number
  · rw [wordLimit]
    omega
  · exact if_pos ⟨by omega, by omega⟩

end KeywordHash.Json
