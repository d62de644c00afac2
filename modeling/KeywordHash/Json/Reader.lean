/-
Module: KeywordHash.Json.Reader
Layer: Json
Purpose: Values of a JSON document, read for a given shape. Reading goes from left to right and stops at
  the first defect. A scalar of the wrong kind is read to its end before it is found to be mismatched;
  an array or an object in its place is mismatched at once. Values of no interest are passed over
  whatever their shape.
Imports: KeywordHash.Json.Number, KeywordHash.Text.Numeral
Trusted boundary: none
Main exports: natural, integer, text, optional, array, elements, exactly, element, members, once, record,
  passMember, document
Open obligations: none
-/
import KeywordHash.Json.Number
import KeywordHash.Text.Numeral

namespace KeywordHash.Json

/-! ### Scalars -/

/-- Whether a value is read for what it stands for, or passed over. -/
inductive Care where
  | read
  | pass
deriving DecidableEq, Repr

/-- Go to the end of a scalar. Anything that begins no scalar is malformed. -/
def scalarEnd (care : Care) : List UInt8 → Except Defect (List UInt8)
  | [] => .error .truncated
  | b :: rest =>
      if b = code 'n' then
        literal ['u', 'l', 'l'] rest
      else if b = code 't' then
        literal ['r', 'u', 'e'] rest
      else if b = code 'f' then
        literal ['a', 'l', 's', 'e'] rest
      else if b = code '"' then
        match care with
        | .read => (textBody rest).map (·.2)
        | .pass => passTextBody rest
      else if b = code '-' || isDigit b then
        match care with
        | .read => (readNumber (b :: rest)).map (·.2)
        | .pass => passNumber (b :: rest)
      else
        .error .malformed

/-- The defect of a value of the wrong kind, from its first byte on. -/
def mismatch : List UInt8 → Defect
  | [] => .truncated
  | b :: rest =>
      if b = code '[' || b = code '\x7b' then
        .mismatched
      else
        match scalarEnd .read (b :: rest) with
        | .error defect => defect
        | .ok _ => .mismatched

/-- Read a whole number and fit it. -/
def fitted {α : Type} (fit : Int → Option α) : Reader α := fun s => do
  let (b, s) ← peek s
  if b = code '-' || isDigit b then
    let (n, rest) ← readNumber s
    match n.integer?.bind fit with
    | some a => return (a, rest)
    | none => throw .mismatched
  else
    throw (mismatch s)

/-- Read a machine word. -/
def natural : Reader Nat :=
  fitted fun n => if 0 ≤ n ∧ n < wordLimit then some n.toNat else none

/-- Read a signed number of 32 bits. -/
def integer : Reader Int :=
  fitted fun n => if -0x80000000 ≤ n ∧ n < 0x80000000 then some n else none

/-- Read a string. -/
def text : Reader String := fun s => do
  match ← peek s with
  | (_, []) => throw .truncated
  | (_, b :: rest) => if b = code '"' then textBody rest else throw (mismatch (b :: rest))

/-- Read a value, or nothing in the form of the name `null`. -/
def optional {α : Type} (item : Reader α) : Reader (Option α) := fun s => do
  match ← peek s with
  | (_, []) => throw .truncated
  | (_, b :: rest) =>
      if b = code 'n' then
        let rest ← literal ['u', 'l', 'l'] rest
        return (none, rest)
      else
        let (a, rest) ← item (b :: rest)
        return (some a, rest)

/-! ### Parts of arrays and objects -/

/-- Go to the next part of an array or an object: to its closing mark, or behind the comma that has to
    stand in front of every part but the first. The first byte of the part is returned, and nothing in
    front of the closing mark. -/
def nextPart (closing : Char) (isFirst : Bool) : Reader (Option UInt8) := fun s => do
  let (b, s) ← peek s
  if b = code closing then
    return (none, s)
  else if isFirst then
    return (some b, s)
  else
    let (b, s) ← peek (← punctuation ',' s)
    if b = code closing then throw .malformed else return (some b, s)

/-- Read the next element of an array, if there is one. -/
def nextElement {α : Type} (item : Reader α) (isFirst : Bool) : Reader (Option α) := fun s => do
  match ← nextPart ']' isFirst s with
  | (none, s) => return (none, s)
  | (some _, s) =>
      let (a, rest) ← item s
      return (some a, rest)

/-- Read an element that the array has to have. -/
def element {α : Type} (item : Reader α) (isFirst : Bool) : Reader α := fun s => do
  match ← nextElement item isFirst s with
  | (none, _) => throw .mismatched
  | (some a, rest) => return (a, rest)

/-- Read the elements that are left in an array, up to the given number. The elements that were read
    before are given with the latest of them first. -/
def elementsAfter {α : Type} (item : Reader α) (read : List α) : Nat → Bool → Reader (List α)
  | 0, _, _ => .error .malformed
  | limit + 1, isFirst, s =>
      match nextElement item isFirst s with
      | .error defect => .error defect
      | .ok (none, rest) => .ok (read.reverse, rest)
      | .ok (some a, rest) => elementsAfter item (a :: read) limit false rest

/-- Read the elements of an array. The limit is a number that an array of the document has fewer elements
    than, such as the number of bytes of the document. -/
def elements {α : Type} (limit : Nat) (item : Reader α) : Reader (List α) :=
  elementsAfter item [] limit true

/-- Read a given number of elements of an array. -/
def exactly {α : Type} (item : Reader α) : Nat → Bool → Reader (List α)
  | 0, _, s => .ok ([], s)
  | count + 1, isFirst, s => do
      let (a, rest) ← element item isFirst s
      let (others, rest) ← exactly item count false rest
      return (a :: others, rest)

/-- Read an array, given how to read what stands between its brackets. -/
def array {α : Type} (content : Reader α) : Reader α := fun s => do
  match ← peek s with
  | (_, []) => throw .truncated
  | (_, b :: rest) =>
      if b = code '[' then
        let (a, rest) ← content rest
        return (a, ← punctuation ']' rest)
      else
        throw (mismatch (b :: rest))

/-- Read the next key of an object, if there is one. -/
def nextKey (isFirst : Bool) : Reader (Option String) := fun s => do
  match ← nextPart '\x7d' isFirst s with
  | (none, s) => return (none, s)
  | (some b, s) =>
      if b = code '"' then
        let (key, rest) ← textBody (s.drop 1)
        return (some key, rest)
      else
        throw .malformed

/-- Read the members that are left in an object, up to the given number, each by its key into a state. -/
def membersFrom {σ : Type} (member : String → σ → Reader σ) : Nat → σ → Bool → Reader σ
  | 0, _, _, _ => .error .malformed
  | limit + 1, state, isFirst, s =>
      match nextKey isFirst s with
      | .error defect => .error defect
      | .ok (none, rest) => .ok (state, rest)
      | .ok (some key, rest) =>
          match member key state rest with
          | .error defect => .error defect
          | .ok (state, rest) => membersFrom member limit state false rest

/-- Read the members of an object. The limit is a number that an object of the document has fewer members
    than. -/
def members {σ : Type} (limit : Nat) (member : String → σ → Reader σ) (start : σ) : Reader σ :=
  membersFrom member limit start true

/-- Read the value behind a key, unless the key was there before. -/
def once {α : Type} (former : Option α) (item : Reader α) : Reader α := fun s =>
  match former with
  | some _ => .error .mismatched
  | none => do item (← punctuation ':' s)

/-- Read a record that is written as an object of its members, or as an array of its fields. -/
def record {α : Type} (object fields : Reader α) : Reader α := fun s => do
  match ← peek s with
  | (_, []) => throw .truncated
  | (_, b :: rest) =>
      if b = code '\x7b' then
        let (a, rest) ← object rest
        return (a, ← punctuation '\x7d' rest)
      else
        array fields (b :: rest)

/-! ### Values of no interest

Open brackets are kept in a list, so there is no limit to the depth.
-/

/-- An array or an object that was begun. -/
inductive Bracket where
  | array
  | object
deriving DecidableEq, Repr

/-- The mark that ends an array or an object. -/
def Bracket.closing : Bracket → Char
  | .array => ']'
  | .object => '\x7d'

/-- What has to follow while values are passed over. -/
inductive Due where
  | value
  /-- A part of the innermost array or object. -/
  | part
  /-- A part or the closing mark of the innermost array or object. -/
  | partOrEnd
  /-- A comma or the closing mark of the innermost array or object. -/
  | separator
deriving DecidableEq, Repr

/-- How many further things can be due without a byte being taken. -/
@[simp]
def Due.rank : Due → Nat
  | .value => 0
  | .separator => 0
  | .part => 1
  | .partOrEnd => 2

/-- The bytes behind the first one that is no blank are fewer. -/
theorem length_of_skipBlanks {s rest : List UInt8} {b : UInt8} (h : skipBlanks s = b :: rest) :
    rest.length < s.length := by
  have shorter := (List.dropWhile_sublist isBlank (l := s)).length_le
  rw [← skipBlanks, h, List.length_cons] at shorter
  omega

/-- A scalar that is passed over takes some bytes. -/
theorem length_scalarEnd {s rest : List UInt8} (h : scalarEnd .pass s = .ok rest) :
    rest.length < s.length := by
  rw [scalarEnd.eq_def] at h
  split at h
  · cases h
  · next b tail =>
      simp only [List.length_cons]
      split at h
      · have := length_literal h
        omega
      · split at h
        · have := length_literal h
          omega
        · split at h
          · have := length_literal h
            omega
          · split at h
            · have := length_passTextBody h
              omega
            · split at h
              · have := length_passNumber h
                simpa using this
              · cases h

/-- Pass over a key and the colon behind it. -/
def passKey (s : List UInt8) : Except Defect (List UInt8) := do
  punctuation ':' (← passTextBody (← punctuation '"' s))

/-- A key takes some bytes. -/
theorem length_passKey {s rest : List UInt8} (h : passKey s = .ok rest) :
    rest.length < s.length := by
  obtain ⟨opened, hQuote, h⟩ := exists_of_bind_eq_ok h
  obtain ⟨closed, hText, hColon⟩ := exists_of_bind_eq_ok h
  have := length_punctuation hQuote
  have := length_passTextBody hText
  have := length_punctuation hColon
  omega

/-- Pass over values until every open bracket is closed. -/
def passFrom (due : Due) (brackets : List Bracket) (s : List UInt8) : Except Defect (List UInt8) :=
  match due, brackets with
  | .value, _ =>
      match h : skipBlanks s with
      | [] => .error .truncated
      | b :: rest =>
          have := length_of_skipBlanks h
          if b = code '[' then
            passFrom .partOrEnd (.array :: brackets) rest
          else if b = code '\x7b' then
            passFrom .partOrEnd (.object :: brackets) rest
          else
            match hEnd : scalarEnd .pass (b :: rest) with
            | .error defect => .error defect
            | .ok left =>
                have := Nat.lt_of_lt_of_le (length_scalarEnd hEnd) (length_of_skipBlanks h)
                passFrom .separator brackets left
  | .part, .object :: _ =>
      match h : passKey s with
      | .error defect => .error defect
      | .ok rest =>
          have := length_passKey h
          passFrom .value brackets rest
  | .part, _ => passFrom .value brackets s
  | .partOrEnd, bracket :: outer =>
      match h : skipBlanks s with
      | [] => .error .truncated
      | b :: rest =>
          have := length_of_skipBlanks h
          if b = code bracket.closing then passFrom .separator outer rest else passFrom .part brackets s
  | .separator, bracket :: outer =>
      match h : skipBlanks s with
      | [] => .error .truncated
      | b :: rest =>
          have := length_of_skipBlanks h
          if b = code bracket.closing then
            passFrom .separator outer rest
          else if b = code ',' then
            passFrom .part brackets rest
          else
            .error .malformed
  | .partOrEnd, [] => .ok s
  | .separator, [] => .ok s
termination_by (s.length, due.rank)

/-- Pass over the value behind a key. -/
def passMember (s : List UInt8) : Except Defect (List UInt8) := do
  passFrom .value [] (← punctuation ':' s)

/-- Read a document that holds one value and nothing else. -/
def document {α : Type} (value : Reader α) (s : List UInt8) : Except Defect α := do
  let (a, rest) ← value s
  match skipBlanks rest with
  | [] => return a
  | _ :: _ => throw .malformed

end KeywordHash.Json
