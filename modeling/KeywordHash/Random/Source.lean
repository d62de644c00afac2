/-
Module: KeywordHash.Random.Source
Layer: Random
Purpose: Sources of random words and choices drawn from them. A number below a bound is the high half of
  the product of a word and the bound; if the low half is so large that a longer word could carry into
  the high half, one more word decides about the carry. A draw gives back the source behind the words
  that it took, also when it faults.
Imports: KeywordHash.Fault
Trusted boundary: none
Main exports: WordSource, Replay, Draw, below, choose
Open obligations: none
-/
import KeywordHash.Fault

namespace KeywordHash.Random

/-- A source of words of 32 bits. -/
class WordSource (σ : Type) where
  /-- The next word and the source behind it. -/
  next : σ → UInt32 × σ

/-- A source that gives the words of a list in turn, and starts over at the end. -/
structure Replay where
  words : Array UInt32
  /-- How many words were drawn. -/
  drawn : Nat := 0

instance : WordSource Replay where
  next source :=
    (source.words[source.drawn % source.words.size]?.getD 0,
      { source with drawn := source.drawn + 1 })

/-- A computation that draws words from a source and may fault. -/
abbrev Draw (σ α : Type) := ExceptT Fault (StateM σ) α

variable {σ : Type} [WordSource σ]

/-- Draw a word. -/
def word : Draw σ UInt32 := fun source =>
  let (w, rest) := WordSource.next source
  (.ok w, rest)

/-- The number of words. -/
def wordCount : Nat := 1 <<< 32

/-- Draw a number below the bound. -/
def below (bound : Nat) : Draw σ Nat :=
  if bound = 0 then
    throw .emptyChoice
  else do
    let product := (← word).toNat * bound
    let high := product / wordCount
    let low := product % wordCount
    if wordCount - bound < low then
      let carry := low + (← word).toNat * bound / wordCount
      return if wordCount ≤ carry then high + 1 else high
    else
      return high

/-- Draw one of several alternatives. -/
def choose {α : Type} (alternatives : Array α) : Draw σ α := do
  let index ← below alternatives.size
  match alternatives[index]? with
  | some a => return a
  | none => throw .emptyChoice

end KeywordHash.Random
