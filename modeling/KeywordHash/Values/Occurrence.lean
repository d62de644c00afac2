/-
Module: KeywordHash.Values.Occurrence
Layer: Hash
Purpose: Samples of words and how often each character stands in the samples of a keyword set. Only ASCII
  characters are counted, and a counter holds less than `counterLimit`.
Imports: KeywordHash.Signature, KeywordHash.Values
Trusted boundary: none
Main exports: Sample, Signature.sample, Sample.hash, Occurrence, Occurrence.ofSamples
Open obligations: none
-/
import KeywordHash.Signature
import KeywordHash.Values

namespace KeywordHash

/-- All that a hash depends on: the length of a word and the characters at the offsets. -/
structure Sample where
  length : Nat
  characters : List UInt8
deriving DecidableEq, Repr

/-- The sample that a signature takes of a word. -/
def Signature.sample (signature : Signature) (word : List UInt8) : Sample where
  length := word.length
  characters := signature.realize word

/-- The length of the word and the values of the sampled characters, added up. -/
def Sample.hash (sample : Sample) (values : AssociatedValues) : Int :=
  sample.length + (sample.characters.map values.get).foldr (· + ·) 0

/-- One more than the greatest number that a counter holds. -/
def counterLimit : Nat := 1 <<< 32

/-- How often each ASCII character was sampled. -/
structure Occurrence where
  counts : Vector Nat asciiCount
deriving DecidableEq, Repr

namespace Occurrence

/-- Nothing was sampled. -/
def zero : Occurrence where
  counts := Vector.replicate asciiCount 0

/-- The number of times that the character was sampled. -/
def get (occurrence : Occurrence) (c : UInt8) : Nat :=
  occurrence.counts[c.toNat]?.getD 0

/-- Was the character sampled at all? -/
def isSampled (occurrence : Occurrence) (c : UInt8) : Bool :=
  occurrence.get c ≠ 0

/-- Count one more character. -/
def add (occurrence : Occurrence) (c : UInt8) : Except Fault Occurrence :=
  if h : c.toNat < asciiCount then
    let count := occurrence.counts[c.toNat] + 1
    if count < counterLimit then
      .ok { counts := occurrence.counts.set c.toNat count }
    else
      .error (.countOverflow c)
  else
    .error (.notAscii c)

/-- Count the characters of all samples. -/
def ofSamples (samples : List Sample) : Except Fault Occurrence :=
  (samples.flatMap (·.characters)).foldlM add zero

end Occurrence

end KeywordHash
