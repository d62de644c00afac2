/-
Module: KeywordHash.Proofs.Random.SentinelWord
Layer: Proofs
Purpose: Words of characters that no keyword samples (`sentinelWord_of_build`). In a built table the
  unused characters are these, and the first offset lies in the shortest keyword, so a word that is no
  shorter has such a character at an offset. It counts the sentinel there, which is past every slot.
Imports: KeywordHash.Proofs.Random.Source, KeywordHash.Proofs.Table.Probe,
  KeywordHash.Proofs.Table.Representation, KeywordHash.Proofs.Text.Bytes, KeywordHash.Random.Words
Trusted boundary: none
Main exports: Table.Samples, Table.isUnused_iff_of_build, Table.sampledOffsets_pos_of_build,
  Table.hashSum_of_unsampled, draws_characters, SentinelWord, draws_sentinelWord, sentinelWord_of_build
Open obligations: none
-/
import KeywordHash.Proofs.Random.Source
import KeywordHash.Proofs.Table.Probe
import KeywordHash.Proofs.Table.Representation
import KeywordHash.Proofs.Text.Bytes
import KeywordHash.Random.Words

namespace KeywordHash

namespace Table

variable {table : Table}

/-- Some keyword has the character at an offset. -/
def Samples (table : Table) (c : Char) : Prop :=
  ∃ keyword ∈ table.keywords, ∃ offset ∈ table.signature.offsets,
    keyword.bytes[offset]? = some c.toUInt8

section

variable {keywords : List Keyword} {maxTries : Nat} (built : build keywords maxTries = .ok table)

include built

/-- The unused characters of a built table are those that no keyword has at an offset. -/
theorem isUnused_iff_of_build (c : Char) : table.values.isUnused c.toUInt8 ↔ ¬ table.Samples c := by
  obtain ⟨_, found, rfl, hAssign, _⟩ := build_eq_ok built
  rw [AssociatedValues.isUnused, decide_eq_true_iff]
  refine (unused_iff_ofFound (assigned_of_assign hAssign) c.toUInt8).trans ?_
  simp [Samples, ofFound]

/-- The signature of a built table has an offset within each word that is no shorter than the shortest
    keyword. -/
theorem sampledOffsets_pos_of_build {length : Nat} (length_ge : table.minWordLength ≤ length) :
    0 < (table.signature.sampledOffsets length).length := by
  obtain ⟨_, found, rfl, _, bounds, shortest_eq, _, admitted⟩ := build_eq_ok built
  obtain ⟨first, rest, offsets_eq⟩ := List.exists_cons_of_ne_nil admitted.ne_nil
  have first_lt : first < bounds.shortest := admitted.head_lt first (by simp [offsets_eq])
  have inside : first < length := by
    rw [shortest_eq] at first_lt
    exact Nat.lt_of_lt_of_le first_lt length_ge
  apply List.length_pos_of_mem (a := first)
  rw [Signature.sampledOffsets, List.mem_filter]
  exact ⟨by simp [ofFound, offsets_eq], decide_eq_true inside⟩

/-- A word of unsampled characters that is no shorter than the shortest keyword is hashed past the last
    slot, because each of its characters at an offset counts the sentinel. -/
theorem hashSum_of_unsampled {characters : List Char} (ascii : ∀ c ∈ characters, c.toNat < 128)
    (length_ge : table.minWordLength ≤ characters.length)
    (unsampled : ∀ c ∈ characters, ¬ table.Samples c) :
    table.hashSum (Text.bytes (String.ofList characters))
        = characters.length
          + (table.signature.sampledOffsets characters.length).length * table.sentinel
      ∧ table.maxHash < table.hashSum (Text.bytes (String.ofList characters)) := by
  have bytes_eq := Text.bytes_ofList_of_ascii ascii
  have isUnused : ∀ c ∈ table.signature.realize (Text.bytes (String.ofList characters)),
      table.values.get c = unused := by
    intro c hc
    obtain ⟨offset, _, hc⟩ := Signature.mem_realize_iff.1 hc
    have member := List.mem_of_getElem? hc
    rw [bytes_eq] at member
    obtain ⟨character, hCharacter, rfl⟩ := List.mem_map.1 member
    exact of_decide_eq_true ((isUnused_iff_of_build built character).2 (unsampled _ hCharacter))
  have sum_eq := hashSum_of_unused isUnused
  rw [bytes_eq, List.length_map, ← bytes_eq] at sum_eq
  refine ⟨sum_eq, ?_⟩
  have offsets_pos := sampledOffsets_pos_of_build built length_ge
  calc table.maxHash
      < table.sentinel := Nat.lt_succ_self table.maxHash
    _ ≤ (table.signature.sampledOffsets characters.length).length * table.sentinel :=
        Nat.le_mul_of_pos_left _ offsets_pos
    _ ≤ table.hashSum (Text.bytes (String.ofList characters)) := by
        rw [sum_eq]
        exact Nat.le_add_left _ _

end

end Table

namespace Random

variable {σ : Type} [WordSource σ] {alternatives : Array Char}

/-- Behind the characters that were drawn before come as many alternatives as are asked for. The induction
    is on their number. -/
theorem draws_charactersAfter (some_alternative : 0 < alternatives.size) {drawn : List Char}
    {count : Nat} :
    Draws (charactersAfter alternatives drawn count : Draw σ (List Char)) fun result =>
      ∃ more, result = drawn.reverse ++ more ∧ more.length = count ∧ ∀ c ∈ more, c ∈ alternatives := by
  induction count generalizing drawn with
  | zero => exact draws_pure ⟨[], by simp⟩
  | succ count ih =>
      refine (draws_choose some_alternative).bind fun c member => ?_
      intro source
      obtain ⟨result, hResult, more, rfl, length_eq, members⟩ := @ih (c :: drawn) source
      refine ⟨_, hResult, c :: more, by simp, by simp [length_eq], ?_⟩
      rw [List.forall_mem_cons]
      exact ⟨member, members⟩

/-- As many alternatives are drawn as are asked for. -/
theorem draws_characters (some_alternative : 0 < alternatives.size) {count : Nat} :
    Draws (characters alternatives count : Draw σ (List Char)) fun result =>
      result.length = count ∧ ∀ c ∈ result, c ∈ alternatives := by
  intro source
  obtain ⟨result, hResult, more, rfl, length_eq, members⟩ :=
    @draws_charactersAfter σ _ alternatives some_alternative [] count source
  exact ⟨_, hResult, by simpa using length_eq, by simpa using members⟩

/-- What a draw of a sentinel word can come to. -/
inductive SentinelWord (table : Table) (length : Nat) : Option String → Prop where
  | noneFree (used : ∀ c ∈ identifierCharacters, ¬ table.values.isUnused c.toUInt8) :
      SentinelWord table length none
  | drawn (characters : List Char) (length_eq : characters.length = length)
      (free : ∀ c ∈ characters, c ∈ identifierCharacters ∧ table.values.isUnused c.toUInt8)
      (some_free : ∃ c ∈ identifierCharacters, table.values.isUnused c.toUInt8) :
      SentinelWord table length (some (String.ofList characters))

/-- Every draw comes to one of these. -/
theorem draws_sentinelWord {table : Table} {length : Nat} :
    Draws (sentinelWord table length : Draw σ (Option String)) (SentinelWord table length) := by
  rw [sentinelWord]
  split
  · next isEmpty =>
      refine draws_pure (.noneFree fun c member isUnused => ?_)
      have free : c ∈ identifierCharacters.filter fun c => table.values.isUnused c.toUInt8 :=
        Array.mem_filter.2 ⟨member, isUnused⟩
      rw [Array.isEmpty_iff.1 isEmpty] at free
      exact Array.not_mem_empty c free
  · next nonempty =>
      have size_pos := Array.size_pos_iff.2 fun isEmpty => nonempty (Array.isEmpty_iff.2 isEmpty)
      obtain ⟨c, hc⟩ := Array.exists_mem_of_size_pos size_pos
      refine (draws_characters size_pos).bind fun characters ⟨length_eq, free⟩ => draws_pure ?_
      exact .drawn characters length_eq (fun c hc => Array.mem_filter.1 (free c hc))
        ⟨c, Array.mem_filter.1 hc⟩

/-- Whatever words the source gives, for a length that is no less than the shortest and, with the sentinel
    for every offset within it, adds up to a machine word: there is no sentinel word for a built table
    exactly if every identifier character is sampled. Otherwise the word has this length and unsampled
    identifier characters only, is hashed past the last slot, and is not found. -/
theorem sentinelWord_of_build {keywords : List Keyword} {maxTries : Nat} {table : Table}
    (built : Table.build keywords maxTries = .ok table) {length : Nat}
    (length_ge : table.minWordLength ≤ length)
    (room : length + (table.signature.sampledOffsets length).length * table.sentinel < wordLimit)
    (source : σ) :
    ∃ found, ((sentinelWord table length).run.run source).1 = .ok found
      ∧ (found = none ↔ ∀ c ∈ identifierCharacters, table.Samples c)
      ∧ ∀ word, found = some word →
          word.length = length
            ∧ (∀ c ∈ word.toList, c ∈ identifierCharacters ∧ ¬ table.Samples c)
            ∧ (∃ hash, table.hash (Text.bytes word) = .ok hash ∧ table.maxHash < hash)
            ∧ table.lookup word = .ok none := by
  have isUnused_iff := Table.isUnused_iff_of_build built
  obtain ⟨found, hFound, ended⟩ := @draws_sentinelWord σ _ table length source
  refine ⟨found, hFound, ?_⟩
  cases ended with
  | noneFree used => simpa [isUnused_iff] using used
  | drawn characters length_eq free some_free =>
      subst length_eq
      simp only [isUnused_iff] at free some_free
      obtain ⟨sum_eq, past⟩ := Table.hashSum_of_unsampled built
        (fun c hc => identifierCharacters_ascii c (free c hc).1) length_ge fun c hc => (free c hc).2
      have sum_lt := sum_eq ▸ room
      have found_eq := (Table.perfect_of_build built).2.consistent.lookup_eq_found? sum_lt
      rw [Table.found?_of_gt past] at found_eq
      constructor
      · simpa using some_free
      · rintro word ⟨⟩
        exact ⟨String.length_ofList, by simpa using free, ⟨_, Table.hash_eq_ok sum_lt, past⟩, found_eq⟩

/-- For the table of three words, which sample `f` and `n`, a source may give the word `a_a`. -/
theorem sentinelWord_reserved :
    Table.build Table.reservedWords 100 = .ok Table.reservedTable
      ∧ Table.reservedTable.minWordLength ≤ 3
      ∧ 3 + (Table.reservedTable.signature.sampledOffsets 3).length * Table.reservedTable.sentinel
          < wordLimit
      ∧ ((sentinelWord Table.reservedTable 3).run.run ({ words := #[0, 0xFFFFFFFF] } : Replay)).1
          = .ok (some "a_a")
      ∧ (∀ c ∈ "a_a".toList, c ∈ identifierCharacters ∧ ¬ Table.reservedTable.Samples c)
      ∧ (∃ hash, Table.reservedTable.hash (Text.bytes "a_a") = .ok hash
          ∧ Table.reservedTable.maxHash < hash)
      ∧ Table.reservedTable.lookup "a_a" = .ok none := by
  have length_ge : Table.reservedTable.minWordLength ≤ 3 := by decide
  have room : 3 + (Table.reservedTable.signature.sampledOffsets 3).length
      * Table.reservedTable.sentinel < wordLimit := by decide +kernel
  let source : Replay := { words := #[0, 0xFFFFFFFF] }
  have run_eq : ((sentinelWord Table.reservedTable 3).run.run source).1 = .ok (some "a_a") := by
    decide +kernel
  obtain ⟨found, hFound, _, word_iff⟩ :=
    sentinelWord_of_build Table.build_reserved length_ge room source
  rw [run_eq] at hFound
  injection hFound with found_eq
  exact ⟨Table.build_reserved, length_ge, room, run_eq, (word_iff "a_a" found_eq.symm).2⟩

end Random

end KeywordHash
