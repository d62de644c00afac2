/-
Module: KeywordHash.Random.Words
Layer: Random
Purpose: Random words to probe a table with: words of identifier characters, keywords with one character
  replaced, and words of characters that no keyword samples.
Imports: KeywordHash.Random.Source, KeywordHash.Table
Trusted boundary: none
Main exports: identifierCharacters, identifierCharacters_ascii, probe, probes, nearMiss, nearMisses,
  sentinelWord
Open obligations: none
-/
import KeywordHash.Random.Source
import KeywordHash.Table

namespace KeywordHash.Random

/-- The characters of identifiers. -/
def identifierCharacters : Array Char :=
  "abcdefghijklmnopqrstuvwxyzABCDEFGHIJKLMNOPQRSTUVWXYZ0123456789_".toList.toArray

/-- There are such characters, and all of them are ASCII. -/
theorem size_identifierCharacters_pos : 0 < identifierCharacters.size := by
  decide

theorem identifierCharacters_ascii : ∀ c ∈ identifierCharacters, c.toNat < 128 := by
  have all_ascii : identifierCharacters.all (·.toNat < 128) := by decide +kernel
  intro c hc
  exact of_decide_eq_true (Array.all_eq_true_iff_forall_mem.1 all_ascii c hc)

variable {σ : Type} [WordSource σ]

/-- Draw a number of characters behind those that were drawn before, the latest of which comes first. -/
def charactersAfter (alternatives : Array Char) (drawn : List Char) : Nat → Draw σ (List Char)
  | 0 => return drawn.reverse
  | count + 1 => do
      let c ← choose alternatives
      charactersAfter alternatives (c :: drawn) count

/-- Draw a number of characters one after the other. -/
def characters (alternatives : Array Char) (count : Nat) : Draw σ (List Char) :=
  charactersAfter alternatives [] count

/-- Draw a word of identifier characters that is at most as long as given. -/
def probe (maxLength : Nat) : Draw σ String := do
  let length ← below (maxLength + 1)
  return String.ofList (← characters identifierCharacters length)

/-- Draw a number of probes behind those that were drawn before, the latest of which comes first. -/
def probesAfter (maxLength : Nat) (drawn : List String) : Nat → Draw σ (List String)
  | 0 => return drawn.reverse
  | count + 1 => do
      let word ← probe maxLength
      probesAfter maxLength (word :: drawn) count

/-- Draw a number of probes. -/
def probes (count maxLength : Nat) : Draw σ (List String) :=
  probesAfter maxLength [] count

/-- Draw a keyword and replace one of its bytes by an identifier character, unless there is no keyword or
    the result is not UTF-8. -/
def nearMiss (table : Table) : Draw σ (Option String) := do
  if table.keywords.isEmpty then
    return none
  else
    let keyword ← choose table.keywords.toArray
    let position ← below keyword.bytes.length
    let c ← choose identifierCharacters
    return Text.ofBytes? (keyword.bytes.set position c.toUInt8)

/-- Draw a number of near misses behind those that were drawn before, the latest of which comes first.
    Draws that yield none are left out. -/
def nearMissesAfter (table : Table) (drawn : List String) : Nat → Draw σ (List String)
  | 0 => return drawn.reverse
  | count + 1 => do
      let word ← nearMiss table
      nearMissesAfter table (word.toList ++ drawn) count

/-- Draw near misses a number of times. -/
def nearMisses (table : Table) (count : Nat) : Draw σ (List String) :=
  nearMissesAfter table [] count

/-- Draw a word of the given length from the identifier characters that no keyword samples, unless there
    are none. -/
def sentinelWord (table : Table) (length : Nat) : Draw σ (Option String) := do
  let free := identifierCharacters.filter fun c => table.values.isUnused c.toUInt8
  if free.isEmpty then
    return none
  else
    return some (String.ofList (← characters free length))

end KeywordHash.Random
