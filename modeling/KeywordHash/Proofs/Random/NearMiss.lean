/-
Module: KeywordHash.Proofs.Random.NearMiss
Layer: Proofs
Purpose: What near misses come to. All that a draw can end in is told by `NearMiss`: nothing if there is
  no keyword, a keyword with one byte replaced if the bytes are a text, and a fault if a keyword was
  chosen that has no byte to replace. Neither a document nor the checks on its table turn down an empty
  keyword, so the draw is free of faults for a table if and only if none of its keywords is empty
  (`nearMiss_outcomes`). A build turns such a keyword down, and then there is always a word.
Imports: KeywordHash.Proofs.Random.Source, KeywordHash.Proofs.Table.Convergence,
  KeywordHash.Proofs.Table.Machine, KeywordHash.Proofs.Text.Bytes, KeywordHash.Random.Words,
  KeywordHash.Table.Verification
Trusted boundary: none
Main exports: Near, NearMiss, nearMiss_yields, NearMiss.exists_ok, NearMiss.exists_some,
  NearMiss.exists_near, exists_nearMiss_fault, nearMiss_outcomes, nearMiss_blank_fault
Open obligations: none
-/
import KeywordHash.Proofs.Random.Source
import KeywordHash.Proofs.Table.Convergence
import KeywordHash.Proofs.Table.Machine
import KeywordHash.Proofs.Text.Bytes
import KeywordHash.Random.Words
import KeywordHash.Table.Verification

namespace KeywordHash

/-- A keyword has no bytes if and only if its text is empty. -/
theorem Keyword.length_bytes_eq_zero_iff {keyword : Keyword} :
    keyword.bytes.length = 0 ↔ keyword.text = "" := by
  rw [bytes, Text.length_bytes, String.utf8ByteSize_eq_zero_iff]

namespace Random

variable {table : Table}

/-- The lists have one length and differ at one position at most. -/
def Near (bytes others : List UInt8) : Prop :=
  bytes.length = others.length
    ∧ ∃ position, ∀ other : Nat, other ≠ position → bytes[other]? = others[other]?

/-- What a draw of a near miss can end in. -/
inductive NearMiss (table : Table) : Except Fault (Option String) → Prop where
  | noKeyword (keywords_eq : table.keywords = []) : NearMiss table (.ok none)
  | nothingToReplace (keyword : Keyword) (member : keyword ∈ table.keywords)
      (empty : keyword.text = "") :
      NearMiss table (.error .emptyChoice)
  | replaced (keyword : Keyword) (position : Nat) (c : Char) (member : keyword ∈ table.keywords)
      (position_lt : position < keyword.bytes.length) (identifier : c ∈ identifierCharacters) :
      NearMiss table (.ok (Text.ofBytes? (keyword.bytes.set position c.toUInt8)))

/-- Every draw ends in one of these ways. -/
theorem nearMiss_yields {σ : Type} [WordSource σ] :
    Yields (nearMiss table : Draw σ (Option String)) (NearMiss table) := by
  rw [nearMiss]
  split
  · next isEmpty => exact yields_pure (.noKeyword (List.isEmpty_iff.1 isEmpty))
  · next nonempty =>
      have size_pos : 0 < table.keywords.toArray.size := by
        rw [List.size_toArray]
        exact List.length_pos_iff.2 fun keywords_eq => nonempty (List.isEmpty_iff.2 keywords_eq)
      refine (draws_choose size_pos).bind fun keyword member => ?_
      rw [List.mem_toArray] at member
      by_cases empty : keyword.text = ""
      · -- the second choice is among no positions
        rw [Keyword.length_bytes_eq_zero_iff.2 empty]
        exact fun _ => .nothingToReplace keyword member empty
      · have length_pos := Nat.pos_of_ne_zero (mt Keyword.length_bytes_eq_zero_iff.1 empty)
        refine (draws_below length_pos).bind fun position position_lt => ?_
        refine (draws_choose size_identifierCharacters_pos).bind fun c identifier => ?_
        exact yields_pure (.replaced keyword position c member position_lt identifier)

namespace NearMiss

/-- There is no fault where no keyword is empty. -/
theorem exists_ok (nonempty : ∀ keyword ∈ table.keywords, keyword.text ≠ "")
    {outcome : Except Fault (Option String)} (nearMiss : NearMiss table outcome) :
    ∃ found, outcome = .ok found := by
  cases nearMiss with
  | noKeyword _ => exact ⟨none, rfl⟩
  | nothingToReplace keyword member empty => exact absurd empty (nonempty keyword member)
  | replaced keyword position c _ _ _ => exact ⟨_, rfl⟩

/-- For keywords that can be given a hash there is always a word: ASCII stays ASCII. -/
theorem exists_some (valid : Keyword.Valid table.keywords)
    {outcome : Except Fault (Option String)} (nearMiss : NearMiss table outcome) :
    ∃ word, outcome = .ok (some word) := by
  cases nearMiss with
  | noKeyword keywords_eq => exact absurd keywords_eq valid.ne_nil
  | nothingToReplace keyword member empty => exact absurd empty (valid.text_ne_empty keyword member)
  | replaced keyword position c member _ identifier =>
      have ascii : ∀ b ∈ keyword.bytes.set position c.toUInt8, Text.isAscii b := by
        intro b hb
        rcases List.mem_or_eq_of_mem_set hb with kept | rfl
        · exact List.all_eq_true.1 (valid.isAscii keyword member) b kept
        · exact Text.isAscii_toUInt8 (identifierCharacters_ascii c identifier)
      obtain ⟨word, hWord⟩ := Text.exists_ofBytes?_of_ascii ascii
      exact ⟨word, congrArg Except.ok hWord⟩

/-- A word has the bytes of a keyword, except at one position. -/
theorem exists_near {word : String} (nearMiss : NearMiss table (.ok (some word))) :
    ∃ keyword ∈ table.keywords, Near (Text.bytes word) keyword.bytes := by
  generalize hOutcome : Except.ok (some word) = outcome at nearMiss
  cases nearMiss with
  | noKeyword _ => cases hOutcome
  | nothingToReplace _ _ _ => cases hOutcome
  | replaced keyword position c member _ _ =>
      injection hOutcome with hWord
      rw [Text.bytes_of_ofBytes? hWord.symm]
      refine ⟨keyword, member, List.length_set, position, ?_⟩
      intro other differs
      exact List.getElem?_set_ne differs.symm

end NearMiss

/-- From some source a keyword without a byte to replace is chosen, if there are no more keywords than
    words. -/
theorem exists_nearMiss_fault (few : table.keywords.length ≤ wordCount) {keyword : Keyword}
    (member : keyword ∈ table.keywords) (empty : keyword.text = "") :
    ∃ source : Replay, ((nearMiss table).run.run source).1 = .error .emptyChoice := by
  have nonempty : ¬ table.keywords.isEmpty :=
    fun isEmpty => List.ne_nil_of_mem member (List.isEmpty_iff.1 isEmpty)
  obtain ⟨source, hChosen⟩ := exists_choose_eq (List.mem_toArray.2 member) few
  refine ⟨source, ?_⟩
  rw [nearMiss, if_neg nonempty, run_bind_of_ok (Prod.ext hChosen rfl),
    Keyword.length_bytes_eq_zero_iff.2 empty]
  rfl

/-- A draw from a table none of whose keywords is empty never ends in a fault. If one is empty, the draw
    does so from some source. Whatever word is drawn has the bytes of a keyword except at one position, and
    if a look-up finds it, it is a keyword itself. For a built table there is always a word. -/
theorem nearMiss_outcomes (table : Table) :
    ((∀ keyword ∈ table.keywords, keyword.text ≠ "") →
        ∀ (σ : Type) [WordSource σ] (source : σ),
          ∃ found, ((nearMiss table).run.run source).1 = .ok found)
      ∧ (table.keywords.length ≤ wordCount → (∃ keyword ∈ table.keywords, keyword.text = "") →
          ∃ source : Replay, ((nearMiss table).run.run source).1 = .error .emptyChoice)
      ∧ (∀ (σ : Type) [WordSource σ] (source : σ) (word : String),
          ((nearMiss table).run.run source).1 = .ok (some word) →
            (∃ keyword ∈ table.keywords, Near (Text.bytes word) keyword.bytes)
              ∧ ∀ found, table.lookup word = .ok (some found) →
                  found ∈ table.keywords ∧ found.text = word)
      ∧ ∀ keywords maxTries, Table.build keywords maxTries = .ok table →
          ∀ (σ : Type) [WordSource σ] (source : σ),
            ∃ word, ((nearMiss table).run.run source).1 = .ok (some word) := by
  refine ⟨?_, ?_, ?_, ?_⟩
  · intro nonempty σ _ source
    exact (nearMiss_yields source).exists_ok nonempty
  · rintro few ⟨keyword, member, empty⟩
    exact exists_nearMiss_fault few member empty
  · intro σ _ source word drawn
    have ended := @nearMiss_yields table σ _ source
    rw [drawn] at ended
    exact ⟨ended.exists_near, fun found => Table.mem_of_lookup⟩
  · intro keywords maxTries built σ _ source
    obtain ⟨valid, found, rfl, _⟩ := Table.build_eq_ok built
    exact (nearMiss_yields source).exists_some valid

/-- For the table of three words, a source may give a near miss of `if` that is the keyword `in`, and a
    look-up finds it as this keyword. -/
theorem nearMiss_reserved :
    ((nearMiss Table.reservedTable).run.run
        ({ words := #[0, 0x80000000, 886263093] } : Replay)).1 = .ok (some "in")
      ∧ (∃ keyword ∈ Table.reservedTable.keywords, Near (Text.bytes "in") keyword.bytes)
      ∧ ∃ found, Table.reservedTable.lookup "in" = .ok (some found)
        ∧ found ∈ Table.reservedTable.keywords ∧ found.text = "in" := by
  let source : Replay := { words := #[0, 0x80000000, 886263093] }
  have drawn : ((nearMiss Table.reservedTable).run.run source).1 = .ok (some "in") := by
    decide +kernel
  obtain ⟨_, _, words, _⟩ := nearMiss_outcomes Table.reservedTable
  obtain ⟨near, found_as⟩ := words Replay source "in" drawn
  have found_eq : Table.reservedTable.lookup "in"
      = .ok (some { text := "in", payload := "In" }) := by
    decide +kernel
  exact ⟨drawn, near, _, found_eq, found_as _ found_eq⟩

/-- A table for the empty word alone. -/
def blankTable : Table where
  keywords := [{ text := "", payload := "A" }]
  signature := .single 0
  values := .constant unused
  slots := #[some 0]
  minWordLength := 0
  maxWordLength := 0

/-- The table for the empty word is loaded and passes the checks. Every draw of a near miss for it ends in
    a fault. -/
theorem nearMiss_blank_fault :
    Table.load (Text.bytes blankTable.documentText) = .ok blankTable
      ∧ blankTable.verify = .ok ()
      ∧ ∀ (σ : Type) [WordSource σ] (source : σ),
          ((nearMiss blankTable).run.run source).1 = .error .emptyChoice := by
  refine ⟨Table.load_of_consistent (by decide +kernel) (by decide +kernel), by decide +kernel, ?_⟩
  intro σ _ source
  have ended := @nearMiss_yields blankTable σ _ source
  generalize ((nearMiss blankTable).run.run source).1 = outcome at ended ⊢
  cases ended with
  | noKeyword keywords_eq => cases keywords_eq
  | nothingToReplace _ _ _ => rfl
  | replaced keyword position c member position_lt _ =>
      rw [List.mem_singleton.1 member] at position_lt
      exact absurd position_lt (Nat.not_lt_zero position)

end Random

end KeywordHash
