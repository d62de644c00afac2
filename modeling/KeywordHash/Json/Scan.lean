/-
Module: KeywordHash.Json.Scan
Layer: Json
Purpose: The smallest parts of a JSON document, read from its bytes. A reader takes the bytes that are
  left and returns what it read with the bytes behind it, or the defect that it met first. Blanks are
  the space, the tab, the line feed and the carriage return. This module reads literal names, single
  marks of punctuation, and strings; a string that is read has to be well-formed UTF-8 with paired
  surrogates, and one that is passed over does not.
Imports: KeywordHash.Json.Defect, KeywordHash.Text.Bytes
Trusted boundary: none
Main exports: Reader, skipBlanks, peek, punctuation, literal, textBody, passTextBody
Open obligations: none
-/
import KeywordHash.Json.Defect
import KeywordHash.Text.Bytes

namespace KeywordHash.Json

/-- A reader of values from the bytes that are left. -/
abbrev Reader (α : Type) := List UInt8 → Except Defect (α × List UInt8)

/-- The byte of an ASCII character. -/
abbrev code (c : Char) : UInt8 :=
  c.toUInt8

/-- May the byte stand between the parts of a document? -/
def isBlank (b : UInt8) : Bool :=
  b = code ' ' || b = code '\n' || b = code '\r' || b = code '\t'

/-- The bytes from the next part of the document on. -/
def skipBlanks (s : List UInt8) : List UInt8 :=
  s.dropWhile isBlank

/-- The first byte of the next part, which is left in place. -/
def peek : Reader UInt8 := fun s =>
  match skipBlanks s with
  | [] => .error .truncated
  | b :: rest => .ok (b, b :: rest)

/-- Read the given mark. -/
def punctuation (mark : Char) (s : List UInt8) : Except Defect (List UInt8) :=
  match skipBlanks s with
  | [] => .error .truncated
  | b :: rest => if b = code mark then .ok rest else .error .malformed

/-- Read the given name. -/
def literal : List Char → List UInt8 → Except Defect (List UInt8)
  | [], s => .ok s
  | _ :: _, [] => .error .truncated
  | c :: name, b :: rest => if b = code c then literal name rest else .error .malformed

/-- The value of a hexadecimal digit. -/
def hexDigit? (b : UInt8) : Option Nat :=
  if code '0' ≤ b && b ≤ code '9' then
    some (b.toNat - (code '0').toNat)
  else if code 'a' ≤ b && b ≤ code 'f' then
    some (b.toNat - (code 'a').toNat + 10)
  else if code 'A' ≤ b && b ≤ code 'F' then
    some (b.toNat - (code 'A').toNat + 10)
  else
    none

/-- The value of four hexadecimal digits. -/
def hexCode? (a b c d : UInt8) : Option Nat := do
  let a ← hexDigit? a
  let b ← hexDigit? b
  let c ← hexDigit? c
  let d ← hexDigit? d
  return ((a * 16 + b) * 16 + c) * 16 + d

/-- The byte that a backslash and the given byte stand for. -/
def simpleEscape? (b : UInt8) : Option UInt8 :=
  if b = code '"' || b = code '\\' || b = code '/' then
    some b
  else if b = code 'b' then
    some 0x08
  else if b = code 'f' then
    some 0x0C
  else if b = code 'n' then
    some (code '\n')
  else if b = code 'r' then
    some (code '\r')
  else if b = code 't' then
    some (code '\t')
  else
    none

/-- Is the number the first half of a surrogate pair? -/
def isLeadingSurrogate (n : Nat) : Bool :=
  0xD800 ≤ n && n ≤ 0xDBFF

/-- Is the number the second half of a surrogate pair? -/
def isTrailingSurrogate (n : Nat) : Bool :=
  0xDC00 ≤ n && n ≤ 0xDFFF

/-- The code point of a surrogate pair. -/
def pairedCode (leading trailing : Nat) : Nat :=
  0x10000 + (leading - 0xD800) * 0x400 + (trailing - 0xDC00)

/-- Read four hexadecimal digits. -/
def hexCode : Reader Nat
  | a :: b :: c :: d :: rest =>
      match hexCode? a b c d with
      | some n => .ok (n, rest)
      | none => .error .malformed
  | _ => .error .truncated

/-- Read the second half of a surrogate pair with the escape that introduces it. -/
def trailingSurrogate : Reader Nat
  | [] => .error .truncated
  | [b] => .error (if b = code '\\' then .truncated else .malformed)
  | b :: u :: rest => do
      if b ≠ code '\\' || u ≠ code 'u' then
        throw .malformed
      let (n, rest) ← hexCode rest
      if isTrailingSurrogate n then
        return (n, rest)
      else
        throw .malformed

/-- Read a code point from behind the escape that introduces it. -/
def codePoint : Reader Nat := fun s => do
  let (n, rest) ← hexCode s
  if isTrailingSurrogate n then
    throw .malformed
  else if isLeadingSurrogate n then
    let (m, rest) ← trailingSurrogate rest
    return (pairedCode n m, rest)
  else
    return (n, rest)

/-- Read an escape from behind its backslash, as the bytes that it stands for. -/
def escape : Reader (List UInt8)
  | [] => .error .truncated
  | e :: rest =>
      match simpleEscape? e with
      | some b => .ok ([b], rest)
      | none =>
          if e = code 'u' then do
            let (n, rest) ← codePoint rest
            return (String.utf8EncodeChar (Char.ofNat n), rest)
          else
            .error .malformed

/-- Pass over an escape from behind its backslash, without regard to surrogates. -/
def passEscape : List UInt8 → Except Defect (List UInt8)
  | [] => .error .truncated
  | e :: rest =>
      match simpleEscape? e with
      | some _ => .ok rest
      | none =>
          if e = code 'u' then do
            let (_, rest) ← hexCode rest
            return rest
          else
            .error .malformed

/-!
### Escapes are not empty

Strings are read by recursion on the bytes that are left, so each escape has to take some of them.
-/

/-- A reading in two parts succeeds by way of the first part. -/
theorem exists_of_bind_eq_ok {α β : Type} {first : Except Defect α} {second : α → Except Defect β}
    {b : β} (h : first >>= second = .ok b) : ∃ a, first = .ok a ∧ second a = .ok b := by
  cases first with
  | error defect => cases h
  | ok a => exact ⟨a, rfl, h⟩

/-- Four hexadecimal digits take four bytes. -/
theorem length_hexCode {s rest : List UInt8} {n : Nat} (h : hexCode s = .ok (n, rest)) :
    rest.length < s.length := by
  rw [hexCode.eq_def] at h
  split at h
  · split at h
    · cases h
      simp only [List.length_cons]
      omega
    · cases h
  · cases h

/-- The second half of a surrogate pair takes some bytes. -/
theorem length_trailingSurrogate {s rest : List UInt8} {n : Nat}
    (h : trailingSurrogate s = .ok (n, rest)) : rest.length < s.length := by
  rw [trailingSurrogate.eq_def] at h
  split at h
  · cases h
  · cases h
  · split at h
    · cases h
    · obtain ⟨⟨m, left⟩, hCode, h⟩ := exists_of_bind_eq_ok h
      have := length_hexCode hCode
      dsimp only at h
      simp only [List.length_cons]
      split at h
      · cases h
        omega
      · cases h

/-- A code point takes some bytes. -/
theorem length_codePoint {s rest : List UInt8} {n : Nat} (h : codePoint s = .ok (n, rest)) :
    rest.length < s.length := by
  obtain ⟨⟨m, left⟩, hCode, h⟩ := exists_of_bind_eq_ok h
  have shorter := length_hexCode hCode
  dsimp only at h
  split at h
  · cases h
  · split at h
    · obtain ⟨⟨k, after⟩, hTrailing, h⟩ := exists_of_bind_eq_ok h
      have := length_trailingSurrogate hTrailing
      simp only [pure, Except.pure, Except.ok.injEq, Prod.mk.injEq] at h
      obtain ⟨_, rfl⟩ := h
      omega
    · cases h
      exact shorter

/-- An escape takes some bytes. -/
theorem length_escape {s rest content : List UInt8} (h : escape s = .ok (content, rest)) :
    rest.length < s.length := by
  rw [escape.eq_def] at h
  split at h
  · cases h
  · split at h
    · cases h
      simp
    · split at h
      · obtain ⟨⟨n, left⟩, hPoint, h⟩ := exists_of_bind_eq_ok h
        have := length_codePoint hPoint
        cases h
        simp only [List.length_cons]
        omega
      · cases h

/-- An escape that is passed over takes some bytes. -/
theorem length_passEscape {s rest : List UInt8} (h : passEscape s = .ok rest) :
    rest.length < s.length := by
  rw [passEscape.eq_def] at h
  split at h
  · cases h
  · split at h
    · cases h
      simp
    · split at h
      · obtain ⟨⟨n, left⟩, hCode, h⟩ := exists_of_bind_eq_ok h
        have := length_hexCode hCode
        cases h
        simp only [List.length_cons]
        omega
      · cases h

/-!
### Strings
-/

/-- Read a string to its end, as the bytes that it stands for. The bytes that were read before are given
    with the latest of them first. -/
def textContentAfter (content s : List UInt8) : Except Defect (List UInt8 × List UInt8) :=
  match s with
  | [] => .error .truncated
  | b :: rest =>
      if b = code '"' then
        .ok (content.reverse, rest)
      else if b = code '\\' then
        match h : escape rest with
        | .error defect => .error defect
        | .ok (escaped, left) =>
            have := length_escape h
            textContentAfter (escaped.reverse ++ content) left
      else if b < 0x20 then
        .error .malformed
      else
        textContentAfter (b :: content) rest
termination_by s.length

/-- Read a string from behind its opening quote. -/
def textBody : Reader String := fun s => do
  let (content, rest) ← textContentAfter [] s
  match Text.ofBytes? content with
  | some text => return (text, rest)
  | none => throw .malformed

/-- Pass over a string from behind its opening quote, without regard to what its bytes and escapes
    stand for. -/
def passTextBody (s : List UInt8) : Except Defect (List UInt8) :=
  match s with
  | [] => .error .truncated
  | b :: rest =>
      if b = code '"' then
        .ok rest
      else if b = code '\\' then
        match h : passEscape rest with
        | .error defect => .error defect
        | .ok left =>
            have := length_passEscape h
            passTextBody left
      else if b < 0x20 then
        .error .malformed
      else
        passTextBody rest
termination_by s.length

/-- A name takes no bytes that are not there. -/
theorem length_literal {name : List Char} {s rest : List UInt8} (h : literal name s = .ok rest) :
    rest.length ≤ s.length := by
  fun_induction literal name s with
  | case1 => cases h; exact Nat.le_refl _
  | case2 => cases h
  | case3 name tail c ih =>
      have := ih h
      simp only [List.length_cons]
      omega
  | case4 => cases h

/-- A string that is passed over takes some bytes. -/
theorem length_passTextBody {s rest : List UInt8} (h : passTextBody s = .ok rest) :
    rest.length < s.length := by
  fun_induction passTextBody s with
  | case1 => cases h
  | case2 => cases h; simp
  | case3 => cases h
  | case4 tail hEscape left hLeft shorter ih =>
      have := ih h
      simp only [List.length_cons]
      omega
  | case5 => cases h
  | case6 b tail hQuote hEscape hControl ih =>
      have := ih h
      simp only [List.length_cons]
      omega

/-- A mark takes some bytes. -/
theorem length_punctuation {mark : Char} {s rest : List UInt8} (h : punctuation mark s = .ok rest) :
    rest.length < s.length := by
  have shorter := (List.dropWhile_sublist isBlank (l := s)).length_le
  rw [punctuation] at h
  split at h
  · cases h
  · next b tail hSkip =>
      rw [← skipBlanks, hSkip, List.length_cons] at shorter
      split at h
      · cases h
        omega
      · cases h

end KeywordHash.Json
