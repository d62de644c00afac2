/-
Module: KeywordHash.Json.Number
Layer: Json
Purpose: JSON numbers, read from the bytes of a document. A number has a whole part without leading zeros,
  and may have a sign, a fraction and an exponent. A number that is read must not become infinite when
  it is computed in 64-bit floating point, whatever it is wanted for; a number that is passed over may.
Imports: KeywordHash.Json.Scan, KeywordHash.Text.Numeral
Trusted boundary: none
Main exports: Number, number, readNumber, passNumber, Number.integer?
Open obligations: none
-/
import KeywordHash.Json.Scan
import KeywordHash.Text.Numeral

namespace KeywordHash.Json

/-- Is the byte a decimal digit? -/
def isDigit (b : UInt8) : Bool :=
  code '0' ≤ b && b ≤ code '9'

/-- The number that a decimal digit stands for. -/
def digitValue (b : UInt8) : Nat :=
  b.toNat - (code '0').toNat

/-- The number that decimal digits stand for. -/
def digitsValue (digits : List UInt8) : Nat :=
  digits.foldl (fun n b => n * 10 + digitValue b) 0

/-- A number as it is written. -/
structure Number where
  negative : Bool
  whole : List UInt8
  /-- The digits behind the point, of which there is none without a point. -/
  fraction : List UInt8
  /-- The sign and the digits of the exponent. -/
  exponent : Option (Bool × List UInt8)
deriving DecidableEq, Repr

namespace Number

/-- The whole number that is written without a fraction, an exponent or a sign in front of zero. -/
def integer? (n : Number) : Option Int :=
  if n.fraction.isEmpty && n.exponent.isNone then
    let magnitude := digitsValue n.whole
    if !n.negative then
      some magnitude
    else if magnitude ≠ 0 then
      some (-magnitude)
    else
      none
  else
    none

/-- How many bits a significand has in 64-bit floating point. -/
def precision : Nat := 53

/-- The nearest number that has no more significant bits than the precision. Of two that are equally near,
    it is the one with the even significand. -/
def rounded (n : Nat) : Nat :=
  let unit := 1 <<< (n.log2 + 1 - precision)
  let significand := n / unit
  let rest := n % unit
  if unit < 2 * rest || unit = 2 * rest && significand % 2 = 1 then
    (significand + 1) * unit
  else
    significand * unit

/-- The least number that is rounded to infinity. -/
def infinityLimit : Nat := 1 <<< 1024 - 1 <<< 970

/-- The greatest power of ten in the range of 64-bit floating point. -/
def greatestPower : Nat := 308

/-- Does a significand times a power of ten become infinite? Both factors are rounded before they are
    multiplied, so the answer can differ from that for the exact product. -/
def overflows (significand : Nat) : Int → Bool
  | .negSucc _ => false
  | .ofNat exponent =>
      significand ≠ 0
        && (greatestPower < exponent
          || infinityLimit ≤ rounded significand * rounded (Nat.pow 10 exponent))

/-- Append digits to a significand as long as it remains a machine word. The digits that are left over
    are returned with it. -/
def absorb (significand : Nat) : List UInt8 → Nat × List UInt8
  | [] => (significand, [])
  | b :: rest =>
      let extended := significand * 10 + digitValue b
      if extended < wordLimit then absorb extended rest else (significand, b :: rest)

/-- The exponent as a number. -/
def exponentValue (n : Number) : Int :=
  match n.exponent with
  | none => 0
  | some (negative, digits) =>
      if negative then -(digitsValue digits : Int) else digitsValue digits

/-- Does the number become infinite? The digits of the fraction are appended to the significand of the whole
    part. Digits left over from the whole part count as zeros, and those left over from the fraction are
    dropped. -/
def isTooLarge (n : Number) : Bool :=
  let (whole, wholeRest) := absorb 0 n.whole
  let (significand, fractionRest) := absorb whole n.fraction
  let places : Int := wholeRest.length + fractionRest.length - n.fraction.length
  overflows significand (n.exponentValue + places)

end Number

/-- Read one or more digits. The defect to report at the end of the text is given. -/
def someDigits (atEnd : Defect) : Reader (List UInt8)
  | [] => .error atEnd
  | b :: rest =>
      if isDigit b then
        .ok (b :: rest.takeWhile isDigit, rest.dropWhile isDigit)
      else
        .error .malformed

/-- Read the whole part. A zero stands alone. -/
def wholePart (atEnd : Defect) : Reader (List UInt8) := fun s => do
  let (digits, rest) ← someDigits atEnd s
  match digits with
  | first :: _ :: _ => if first = code '0' then throw .malformed else return (digits, rest)
  | _ => return (digits, rest)

/-- Read the fraction, if there is one. -/
def fractionPart (atEnd : Defect) : Reader (List UInt8)
  | [] => .ok ([], [])
  | b :: rest => if b = code '.' then someDigits atEnd rest else .ok ([], b :: rest)

/-- Read the sign of an exponent, if there is one. -/
def exponentSign : List UInt8 → Bool × List UInt8
  | [] => (false, [])
  | b :: rest =>
      if b = code '-' then
        (true, rest)
      else if b = code '+' then
        (false, rest)
      else
        (false, b :: rest)

/-- Read the exponent, if there is one. -/
def exponentPart (atEnd : Defect) : Reader (Option (Bool × List UInt8))
  | [] => .ok (none, [])
  | b :: rest =>
      if b = code 'e' || b = code 'E' then do
        let (negative, rest) := exponentSign rest
        let (digits, rest) ← someDigits atEnd rest
        return (some (negative, digits), rest)
      else
        .ok (none, b :: rest)

/-- Read the sign of a number, if there is one. -/
def numberSign : List UInt8 → Bool × List UInt8
  | [] => (false, [])
  | b :: rest => if b = code '-' then (true, rest) else (false, b :: rest)

/-- Read a number. The defect to report at the end of the text is given. -/
def number (atEnd : Defect) : Reader Number := fun s => do
  let (negative, s) := numberSign s
  let (whole, s) ← wholePart atEnd s
  let (fraction, s) ← fractionPart atEnd s
  let (exponent, s) ← exponentPart atEnd s
  return ({ negative := negative, whole := whole, fraction := fraction, exponent := exponent }, s)

/-- Read a number for its value. -/
def readNumber : Reader Number := fun s => do
  let (n, rest) ← number .truncated s
  if n.isTooLarge then
    throw .malformed
  else
    return (n, rest)

/-- Pass over a number. A number that breaks off at the end of the text is malformed. -/
def passNumber (s : List UInt8) : Except Defect (List UInt8) := do
  let (_, rest) ← number .malformed s
  return rest

/-!
### Numbers are not empty
-/

/-- A row of digits takes some bytes. -/
theorem length_someDigits {atEnd : Defect} {s digits rest : List UInt8}
    (h : someDigits atEnd s = .ok (digits, rest)) : rest.length < s.length := by
  rw [someDigits.eq_def] at h
  split at h
  · cases h
  · next b tail =>
      split at h
      · cases h
        have := (List.dropWhile_sublist isDigit (l := tail)).length_le
        simp only [List.length_cons]
        omega
      · cases h

/-- The whole part takes some bytes. -/
theorem length_wholePart {atEnd : Defect} {s digits rest : List UInt8}
    (h : wholePart atEnd s = .ok (digits, rest)) : rest.length < s.length := by
  obtain ⟨⟨found, left⟩, hDigits, h⟩ := exists_of_bind_eq_ok h
  have shorter := length_someDigits hDigits
  dsimp only at h
  split at h
  · split at h
    · cases h
    · cases h
      exact shorter
  · cases h
    exact shorter

/-- The fraction takes no bytes that are not there. -/
theorem length_fractionPart {atEnd : Defect} {s digits rest : List UInt8}
    (h : fractionPart atEnd s = .ok (digits, rest)) : rest.length ≤ s.length := by
  rw [fractionPart.eq_def] at h
  split at h
  · cases h
    exact Nat.le_refl _
  · split at h
    · have := length_someDigits h
      simp only [List.length_cons]
      omega
    · cases h
      exact Nat.le_refl _

/-- The sign of an exponent takes no bytes that are not there. -/
theorem length_exponentSign (s : List UInt8) : (exponentSign s).2.length ≤ s.length := by
  rw [exponentSign.eq_def]
  split
  · simp
  · split
    · simp
    · split <;> simp

/-- The exponent takes no bytes that are not there. -/
theorem length_exponentPart {atEnd : Defect} {s rest : List UInt8}
    {exponent : Option (Bool × List UInt8)} (h : exponentPart atEnd s = .ok (exponent, rest)) :
    rest.length ≤ s.length := by
  rw [exponentPart.eq_def] at h
  split at h
  · cases h
    exact Nat.le_refl _
  · next b tail =>
      split at h
      · have sign := length_exponentSign tail
        generalize exponentSign tail = signed at h sign
        obtain ⟨⟨digits, left⟩, hDigits, h⟩ := exists_of_bind_eq_ok h
        have := length_someDigits hDigits
        cases h
        simp only [List.length_cons]
        omega
      · cases h
        exact Nat.le_refl _

/-- The sign of a number takes no bytes that are not there. -/
theorem length_numberSign (s : List UInt8) : (numberSign s).2.length ≤ s.length := by
  rw [numberSign.eq_def]
  split
  · simp
  · split <;> simp

/-- A number takes some bytes. -/
theorem length_number {atEnd : Defect} {s rest : List UInt8} {n : Number}
    (h : number atEnd s = .ok (n, rest)) : rest.length < s.length := by
  have sign := length_numberSign s
  rw [number] at h
  generalize numberSign s = signed at h sign
  obtain ⟨⟨whole, afterWhole⟩, hWhole, h⟩ := exists_of_bind_eq_ok h
  obtain ⟨⟨fraction, afterFraction⟩, hFraction, h⟩ := exists_of_bind_eq_ok h
  obtain ⟨⟨exponent, afterExponent⟩, hExponent, h⟩ := exists_of_bind_eq_ok h
  have := length_wholePart hWhole
  have := length_fractionPart hFraction
  have := length_exponentPart hExponent
  cases h
  omega

/-- A number that is passed over takes some bytes. -/
theorem length_passNumber {s rest : List UInt8} (h : passNumber s = .ok rest) :
    rest.length < s.length := by
  obtain ⟨⟨n, left⟩, hNumber, h⟩ := exists_of_bind_eq_ok h
  cases h
  exact length_number hNumber

end KeywordHash.Json
