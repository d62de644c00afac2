/-
Module: KeywordHash.Random.Stream
Layer: Random
Purpose: A reproducible source of random words, made from a seed of 64 bits. The seed is stretched to a
  key by a linear congruential generator with permuted output, and the key is run through the ChaCha
  block function with twelve rounds; the words of each block are given in order, and the blocks are
  numbered from zero.
Imports: KeywordHash.Random.Source
Trusted boundary: none
Main exports: Block, block, Stream, Stream.ofSeed
Open obligations: none
-/
import KeywordHash.Random.Source

namespace KeywordHash.Random

/-- Sixteen words. -/
abbrev Block := Vector UInt32 16

/-- A word with its bits moved up in a circle. -/
def rotateLeft (w : UInt32) (bits : UInt32) : UInt32 :=
  w <<< bits ||| w >>> (32 - bits)

/-- A word with its bits moved down in a circle. -/
def rotateRight (w : UInt32) (bits : UInt32) : UInt32 :=
  w >>> bits ||| w <<< (32 - bits)

/-- Mix four words of a block. -/
def quarterRound (s : Block) (a b c d : Fin 16) : Block :=
  let xa := s[a] + s[b]
  let xd := rotateLeft (s[d] ^^^ xa) 16
  let xc := s[c] + xd
  let xb := rotateLeft (s[b] ^^^ xc) 12
  let xa := xa + xb
  let xd := rotateLeft (xd ^^^ xa) 8
  let xc := xc + xd
  let xb := rotateLeft (xb ^^^ xc) 7
  (((s.set a xa).set b xb).set c xc).set d xd

/-- Mix the columns of a block, and then the diagonals. -/
def doubleRound (s : Block) : Block :=
  let s := quarterRound s 0 4 8 12
  let s := quarterRound s 1 5 9 13
  let s := quarterRound s 2 6 10 14
  let s := quarterRound s 3 7 11 15
  let s := quarterRound s 0 5 10 15
  let s := quarterRound s 1 6 11 12
  let s := quarterRound s 2 7 8 13
  quarterRound s 3 4 9 14

/-- The block with the given number, which the rounds begin with. -/
def startBlock (key : Vector UInt32 8) (number : UInt64) : Block :=
  (#v[0x61707865, 0x3320646E, 0x79622D32, 0x6B206574] : Vector UInt32 4) ++ key
    ++ (#v[number.toUInt32, (number >>> 32).toUInt32, 0, 0] : Vector UInt32 4)

/-- The output block with the given number: twelve rounds, and then the words of the start added. -/
def block (key : Vector UInt32 8) (number : UInt64) : Block :=
  let start := startBlock key number
  let mixed := Nat.repeat doubleRound 6 start
  mixed.zipWith (· + ·) start

/-- The words that follow from a key. -/
structure Stream where
  key : Vector UInt32 8
  /-- The number of the next block. -/
  number : UInt64 := 0
  /-- The words of the last block that were not given yet. -/
  pending : List UInt32 := []

namespace Stream

/-- The next state of the generator that stretches a seed. -/
def stretch (state : UInt64) : UInt64 :=
  state * 6364136223846793005 + 11634580027462260723

/-- The word that a state of this generator stands for. -/
def stretchedWord (state : UInt64) : UInt32 :=
  let mixed := ((state >>> 18 ^^^ state) >>> 27).toUInt32
  rotateRight mixed (state >>> 59).toUInt32

/-- The words that a seed begins. -/
def ofSeed (seed : UInt64) : Stream where
  key := Vector.ofFn fun i => stretchedWord (Nat.repeat stretch (i.val + 1) seed)

instance : WordSource Stream where
  next source :=
    match source.pending with
    | w :: rest => (w, { source with pending := rest })
    | [] =>
        let words := block source.key source.number
        (words[0], { source with number := source.number + 1, pending := words.toList.drop 1 })

end Stream

end KeywordHash.Random
