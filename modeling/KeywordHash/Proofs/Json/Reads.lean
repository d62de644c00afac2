/-
Module: KeywordHash.Proofs.Json.Reads
Layer: Proofs
Purpose: What it means that a reader reads a written value back (`Reads`): put in front of a comma or a
  blank, the value is read to its end, and nothing behind it is touched. A value that is written never
  begins with a blank or the mark that ends an array, so it can be told from the end of the array it
  stands in.
Imports: KeywordHash.Json.Scan
Trusted boundary: none
Main exports: Blank, Delimited, SkipsBlanks, Reads, peek_append, peek_cons, punctuation_append
Open obligations: none
-/
import KeywordHash.Json.Scan

namespace KeywordHash.Json

/-- Bytes that may stand between the parts of a document. -/
def Blank (s : List UInt8) : Prop :=
  ∀ b ∈ s, isBlank b

/-- Bytes that end a value in front of them: a comma or a blank comes first, if anything. -/
def Delimited (rest : List UInt8) : Prop :=
  ∀ b ∈ rest.head?, isBlank b ∨ b = code ','

/-- The reader makes no difference between a text and the same text behind blanks. -/
def SkipsBlanks {α : Type} (reader : Reader α) : Prop :=
  ∀ blanks s, Blank blanks → reader (blanks ++ s) = reader s

/-- The reader reads the written value as the value, wherever it stands in a document. -/
structure Reads {α : Type} (reader : Reader α) (written : String) (a : α) : Prop where
  skips : SkipsBlanks reader
  begins : ∃ b tail, Text.bytes written = b :: tail ∧ isBlank b = false ∧ b ≠ code ']'
  read : ∀ rest, Delimited rest → reader (Text.bytes written ++ rest) = .ok (a, rest)

/-! ### Blanks -/

theorem blank_nil : Blank [] := by
  intro b hb
  cases hb

theorem skipBlanks_append {blanks : List UInt8} (blank : Blank blanks) (s : List UInt8) :
    skipBlanks (blanks ++ s) = skipBlanks s :=
  List.dropWhile_append_of_pos blank

theorem skipBlanks_cons {b : UInt8} (solid : isBlank b = false) (s : List UInt8) :
    skipBlanks (b :: s) = b :: s :=
  List.dropWhile_cons_of_neg (by simp [solid])

theorem peek_append : SkipsBlanks peek := by
  intro blanks s blank
  rw [peek, peek, skipBlanks_append blank]

theorem peek_cons {b : UInt8} (solid : isBlank b = false) (s : List UInt8) :
    peek (b :: s) = .ok (b, b :: s) := by
  rw [peek, skipBlanks_cons solid]

/-- A mark is read behind blanks. -/
theorem punctuation_append {mark : Char} (solid : isBlank (code mark) = false) {blanks : List UInt8}
    (blank : Blank blanks) (s : List UInt8) :
    punctuation mark (blanks ++ code mark :: s) = .ok s := by
  rw [punctuation, skipBlanks_append blank, skipBlanks_cons solid]
  exact if_pos rfl

theorem punctuation_cons {mark : Char} (solid : isBlank (code mark) = false) (s : List UInt8) :
    punctuation mark (code mark :: s) = .ok s :=
  punctuation_append solid blank_nil s

/-- A reader that looks at the first byte that is no blank skips blanks. -/
theorem skipsBlanks_of_peek {α : Type} (next : UInt8 × List UInt8 → Except Defect (α × List UInt8)) :
    SkipsBlanks fun s => peek s >>= next := by
  intro blanks s blank
  simp only [peek_append blanks s blank]

end KeywordHash.Json
