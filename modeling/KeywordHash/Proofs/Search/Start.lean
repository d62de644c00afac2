/-
Module: KeywordHash.Proofs.Search.Start
Layer: Proofs
Purpose: Which keyword lists a search starts with, and what is reported of all others (`Refused`). The
  reports are told by the list alone: an empty list, else the first keyword that is not usable on its own,
  else the first one whose text occurs in front of it. A search starts, or there is exactly one report and
  the search ends with it (`start_iff`).
Imports: KeywordHash.Proofs.Keyword.Definitions, KeywordHash.Proofs.Search
Trusted boundary: none
Main exports: Keyword.Flawed, Keyword.flaw?_eq_some_iff, Keyword.FirstRepeat, Keyword.Refused,
  Keyword.Recorded, Keyword.checkUniqueFrom_outcome, Keyword.Refused.unique, Keyword.validate_outcome,
  Search.start_iff
Open obligations: none
-/
import KeywordHash.Proofs.Keyword.Definitions
import KeywordHash.Proofs.Search

namespace KeywordHash

namespace Keyword

/-! ### Reports -/

/-- What makes a keyword unusable, whatever the other keywords are. -/
inductive Flawed (keyword : Keyword) : KeywordFlaw → Prop where
  | empty (text_eq : keyword.text = "") : Flawed keyword .empty
  | notAscii {c : Char} (mem : c ∈ keyword.text.toList) (past : 128 ≤ c.toNat) :
      Flawed keyword .notAscii

/-- The keyword at one index has the text of the keyword at another index in front of it. -/
structure Repeats (keywords : List Keyword) (index : Nat) (keyword : Keyword) (firstIndex : Nat)
    (first : Keyword) : Prop where
  keyword_at : keywords[index]? = some keyword
  first_at : keywords[firstIndex]? = some first
  index_lt : firstIndex < index
  text_eq : first.text = keyword.text

/-- No keyword at a smaller index has a text that occurs in front of it. -/
structure FirstRepeat (keywords : List Keyword) (index : Nat) (keyword : Keyword) (firstIndex : Nat)
    (first : Keyword) : Prop extends Repeats keywords index keyword firstIndex first where
  least : ∀ {index' keyword' firstIndex' first'},
    Repeats keywords index' keyword' firstIndex' first' → index ≤ index'

/-- What is reported of a keyword list that can not be given a hash. -/
inductive Refused (keywords : List Keyword) : Error → Prop where
  | empty (eq_nil : keywords = []) : Refused keywords .emptyKeywordSet
  | flawed {index : Nat} {keyword : Keyword} {flaw : KeywordFlaw}
      (keyword_at : keywords[index]? = some keyword) (flawed : keyword.Flawed flaw)
      (before : ∀ earlier < index, ∀ other, keywords[earlier]? = some other →
        ∀ flaw, ¬ other.Flawed flaw) :
      Refused keywords (.invalidKeyword keyword.text flaw)
  | repeated {index firstIndex : Nat} {keyword first : Keyword}
      (flawless : ∀ other ∈ keywords, ∀ flaw, ¬ other.Flawed flaw)
      (first_repeat : FirstRepeat keywords index keyword firstIndex first) :
      Refused keywords (.duplicateKeyword keyword.text
        (if keyword.line = 0 then index + 1 else keyword.line)
        (if first.line = 0 then firstIndex + 1 else first.line))

/-! ### Flaws -/

/-- A keyword has ASCII bytes only if it has ASCII characters only. -/
theorem isAscii_iff {keyword : Keyword} :
    keyword.isAscii ↔ ∀ c ∈ keyword.text.toList, c.toNat < 128 := by
  have text_eq : keyword.text = String.ofList keyword.text.toList := String.ofList_toList.symm
  constructor
  · intro ascii c hc
    by_contra past
    obtain ⟨b, hb⟩ := List.exists_mem_of_ne_nil _ (String.utf8EncodeChar_ne_nil (c := c))
    have mem_bytes : b ∈ keyword.bytes := by
      rw [bytes, text_eq, Text.bytes_ofList]
      exact List.mem_flatMap.2 ⟨c, hc, hb⟩
    have b_lt : b < 128 := of_decide_eq_true (List.all_eq_true.1 ascii b mem_bytes)
    have le_b := Text.le_of_mem_encoded (Nat.not_lt.1 past) hb
    exact UInt8.not_lt.2 le_b b_lt
  · exact isAscii_of_key text_eq

/-- The flaw that is found is the one that the keyword has. -/
theorem flaw?_eq_some_iff {keyword : Keyword} {flaw : KeywordFlaw} :
    keyword.flaw? = some flaw ↔ keyword.Flawed flaw := by
  rw [flaw?]
  split
  · next isEmpty =>
      have text_eq := String.isEmpty_iff.1 isEmpty
      constructor
      · rintro ⟨⟩
        exact .empty text_eq
      · rintro (_ | ⟨mem, _⟩)
        · rfl
        · simp [text_eq] at mem
  · next nonempty =>
      have text_ne : keyword.text ≠ "" := fun same => nonempty (String.isEmpty_iff.2 same)
      split
      · next notAscii =>
          rw [Bool.not_eq_true', ← Bool.not_eq_true, isAscii_iff] at notAscii
          push Not at notAscii
          obtain ⟨c, mem, past⟩ := notAscii
          constructor
          · rintro ⟨⟩
            exact .notAscii mem past
          · rintro (text_eq | _)
            · exact absurd text_eq text_ne
            · rfl
      · next ascii =>
          rw [Bool.not_eq_true', Bool.not_eq_false, isAscii_iff] at ascii
          constructor
          · rintro ⟨⟩
          · rintro (text_eq | ⟨mem, past⟩)
            · exact absurd text_eq text_ne
            · exact absurd (ascii _ mem) (Nat.not_lt.2 past)

/-- Nothing is found if and only if the keyword has no flaw. -/
theorem flaw?_eq_none_iff_not_flawed {keyword : Keyword} :
    keyword.flaw? = none ↔ ∀ flaw, ¬ keyword.Flawed flaw := by
  simp only [← flaw?_eq_some_iff, Option.eq_none_iff_forall_ne_some, ne_eq]

/-- What is found is a keyword with a flaw behind keywords without one. The induction is on the list. -/
theorem exists_flawed_of_firstFlaw? {keywords : List Keyword} {keyword : Keyword} {flaw : KeywordFlaw}
    (h : firstFlaw? keywords = some (keyword, flaw)) :
    ∃ index : Nat, keywords[index]? = some keyword ∧ keyword.Flawed flaw
      ∧ ∀ earlier < index, ∀ other, keywords[earlier]? = some other → ∀ flaw, ¬ other.Flawed flaw := by
  induction keywords with
  | nil => cases h
  | cons first rest ih =>
      rw [firstFlaw?] at h
      split at h
      · next found hFlaw =>
          cases h
          exact ⟨0, rfl, flaw?_eq_some_iff.1 hFlaw, fun _ lt => absurd lt (Nat.not_lt_zero _)⟩
      · next flawless =>
          obtain ⟨index, keyword_at, flawed, before⟩ := ih h
          refine ⟨index + 1, keyword_at, flawed, ?_⟩
          intro earlier lt other other_at
          cases earlier with
          | zero =>
              cases other_at
              exact flaw?_eq_none_iff_not_flawed.1 flawless
          | succ earlier => exact before earlier (Nat.lt_of_succ_lt_succ lt) other other_at

/-! ### Repeated texts -/

/-- The record has the reported line for each text in front of the index, and none of these texts occurs
    twice there. -/
structure Recorded (keywords : List Keyword) (index : Nat) (seen : List (String × Nat)) : Prop where
  lookup_iff : ∀ {text line}, seen.lookup text = some line ↔
    ∃ firstIndex < index, ∃ first, keywords[firstIndex]? = some first ∧ first.text = text
      ∧ first.reportedLine firstIndex = line
  least : ∀ {index' keyword' firstIndex' first'},
    Repeats keywords index' keyword' firstIndex' first' → index ≤ index'

theorem recorded_nil (keywords : List Keyword) : Recorded keywords 0 [] where
  lookup_iff := by simp
  least := fun _ => Nat.zero_le _

/-- The record of a keyword with a new text is that of the keywords in front of it and its own. -/
theorem Recorded.next {keywords : List Keyword} {index : Nat} {seen : List (String × Nat)}
    {keyword : Keyword} (recorded : Recorded keywords index seen)
    (keyword_at : keywords[index]? = some keyword) (new : seen.lookup keyword.text = none) :
    Recorded keywords (index + 1) ((keyword.text, keyword.reportedLine index) :: seen) := by
  have differs : ∀ {firstIndex first}, firstIndex < index → keywords[firstIndex]? = some first →
      first.text ≠ keyword.text := by
    intro firstIndex first index_lt first_at same
    have found := recorded.lookup_iff.2 ⟨firstIndex, index_lt, first, first_at, same, rfl⟩
    rw [new] at found
    cases found
  constructor
  case lookup_iff =>
    intro text line
    rw [List.lookup_cons]
    split
    · next same =>
        have text_eq : text = keyword.text := eq_of_beq same
        subst text_eq
        constructor
        · rintro ⟨⟩
          exact ⟨index, Nat.lt_succ_self index, keyword, keyword_at, rfl, rfl⟩
        · rintro ⟨firstIndex, index_lt, first, first_at, same, line_eq⟩
          rcases Nat.lt_succ_iff_lt_or_eq.1 index_lt with before | rfl
          · exact absurd same (differs before first_at)
          · cases keyword_at.symm.trans first_at
            rw [line_eq]
    · next other =>
        rw [recorded.lookup_iff]
        constructor
        · rintro ⟨firstIndex, index_lt, found⟩
          exact ⟨firstIndex, Nat.lt_succ_of_lt index_lt, found⟩
        · rintro ⟨firstIndex, index_lt, first, first_at, text_eq, line_eq⟩
          rcases Nat.lt_succ_iff_lt_or_eq.1 index_lt with before | rfl
          · exact ⟨firstIndex, before, first, first_at, text_eq, line_eq⟩
          · cases keyword_at.symm.trans first_at
            exact absurd text_eq.symm (beq_eq_false_iff_ne.1 other)
  case least =>
    intro index' keyword' firstIndex' first' repeats
    refine Nat.lt_of_le_of_ne (recorded.least repeats) ?_
    rintro rfl
    cases keyword_at.symm.trans repeats.keyword_at
    exact differs repeats.index_lt repeats.first_at repeats.text_eq

/-- The check passes, or ends at the first repeated text. The induction is on the keywords that are left,
    each of which is entered in the record if it does not end the check. -/
theorem checkUniqueFrom_outcome {keywords rest : List Keyword} {start : Nat}
    {seen : List (String × Nat)} (recorded : Recorded keywords start seen)
    (rest_eq : keywords.drop start = rest) :
    checkUniqueFrom start seen rest = .ok ()
      ∨ ∃ index keyword firstIndex first, FirstRepeat keywords index keyword firstIndex first
        ∧ checkUniqueFrom start seen rest = .error (.duplicateKeyword keyword.text
          (keyword.reportedLine index) (first.reportedLine firstIndex)) := by
  induction rest generalizing start seen with
  | nil => exact Or.inl rfl
  | cons keyword rest ih =>
      have keyword_at : keywords[start]? = some keyword := by
        rw [← List.head?_drop, rest_eq, List.head?_cons]
      rw [checkUniqueFrom]
      cases hSeen : seen.lookup keyword.text with
      | some firstLine =>
          obtain ⟨firstIndex, index_lt, first, first_at, text_eq, line_eq⟩ :=
            recorded.lookup_iff.1 hSeen
          subst line_eq
          have repeats : Repeats keywords start keyword firstIndex first :=
            ⟨keyword_at, first_at, index_lt, text_eq⟩
          exact Or.inr ⟨start, keyword, firstIndex, first, ⟨repeats, recorded.least⟩, rfl⟩
      | none =>
          refine ih (recorded.next keyword_at hSeen) ?_
          rw [← List.tail_drop, rest_eq, List.tail_cons]

/-- The first repeated text has one place in front of it. -/
theorem FirstRepeat.firstIndex_unique {keywords : List Keyword} {index firstIndex firstIndex' : Nat}
    {keyword keyword' first first' : Keyword}
    (repeated : FirstRepeat keywords index keyword firstIndex first)
    (other : Repeats keywords index keyword' firstIndex' first') : firstIndex' = firstIndex := by
  obtain rfl : keyword' = keyword :=
    Option.some.inj (other.keyword_at.symm.trans repeated.keyword_at)
  have texts_eq : first.text = first'.text := repeated.text_eq.trans other.text_eq.symm
  -- of two places, the one behind would repeat the text before the first repetition
  rcases Nat.lt_trichotomy firstIndex' firstIndex with before | same | behind
  · have := repeated.least ⟨repeated.first_at, other.first_at, before, texts_eq.symm⟩
    exact absurd repeated.index_lt (Nat.not_lt.2 this)
  · exact same
  · have := repeated.least ⟨other.first_at, repeated.first_at, behind, texts_eq⟩
    exact absurd other.index_lt (Nat.not_lt.2 this)

/-! ### All checks -/

/-- A list is refused for one reason only. -/
theorem Refused.unique {keywords : List Keyword} {error other : Error} (refused : Refused keywords error)
    (hOther : Refused keywords other) : error = other := by
  have no_nil : ∀ {index : Nat} {keyword : Keyword}, keywords[index]? = some keyword →
      keywords ≠ [] := by
    rintro index keyword keyword_at rfl
    cases keyword_at
  have not_flawed : ∀ {index : Nat} {keyword : Keyword} {flaw : KeywordFlaw},
      keywords[index]? = some keyword → keyword.Flawed flaw →
      ¬ ∀ other ∈ keywords, ∀ flaw, ¬ other.Flawed flaw := by
    intro index keyword flaw keyword_at flawed flawless
    exact flawless keyword (List.mem_of_getElem? keyword_at) flaw flawed
  cases refused with
  | empty eq_nil =>
      cases hOther with
      | empty _ => rfl
      | flawed keyword_at _ _ => exact absurd eq_nil (no_nil keyword_at)
      | repeated _ repeated => exact absurd eq_nil (no_nil repeated.keyword_at)
  | @flawed index keyword flaw keyword_at flawed before =>
      cases hOther with
      | empty eq_nil => exact absurd eq_nil (no_nil keyword_at)
      | @flawed index' keyword' flaw' keyword_at' flawed' before' =>
          have index_eq : index = index' := by
            refine Nat.le_antisymm (Nat.not_lt.1 fun lt => ?_) (Nat.not_lt.1 fun lt => ?_)
            · exact before _ lt _ keyword_at' _ flawed'
            · exact before' _ lt _ keyword_at _ flawed
          subst index_eq
          cases keyword_at.symm.trans keyword_at'
          have flaw_eq := (flaw?_eq_some_iff.2 flawed).symm.trans (flaw?_eq_some_iff.2 flawed')
          rw [Option.some.inj flaw_eq]
      | repeated flawless _ => exact absurd flawless (not_flawed keyword_at flawed)
  | @repeated index firstIndex keyword first flawless repeated =>
      cases hOther with
      | empty eq_nil => exact absurd eq_nil (no_nil repeated.keyword_at)
      | flawed keyword_at flawed _ => exact absurd flawless (not_flawed keyword_at flawed)
      | @repeated index' firstIndex' keyword' first' _ repeated' =>
          obtain rfl : index = index' :=
            Nat.le_antisymm (repeated.least repeated'.toRepeats) (repeated'.least repeated.toRepeats)
          obtain rfl := repeated.firstIndex_unique repeated'.toRepeats
          cases repeated.keyword_at.symm.trans repeated'.keyword_at
          cases repeated.first_at.symm.trans repeated'.first_at
          rfl

/-- The checks pass, or end with what is to be reported of the list. -/
theorem validate_outcome (keywords : List Keyword) :
    validate keywords = .ok () ∨ ∃ error, validate keywords = .error error ∧ Refused keywords error := by
  rw [validate]
  split
  · next isEmpty => exact Or.inr ⟨_, rfl, .empty (List.isEmpty_iff.1 isEmpty)⟩
  · split
    · next hFlaw =>
        obtain ⟨index, keyword_at, flawed, before⟩ := exists_flawed_of_firstFlaw? hFlaw
        exact Or.inr ⟨_, rfl, .flawed keyword_at flawed before⟩
    · next hFlaw =>
        have flawless : ∀ keyword ∈ keywords, ∀ flaw, ¬ keyword.Flawed flaw := fun keyword h =>
          flaw?_eq_none_iff_not_flawed.1 (firstFlaw?_eq_none_iff.1 hFlaw keyword h)
        rcases checkUniqueFrom_outcome (recorded_nil keywords) (List.drop_zero) with
          passes | ⟨index, keyword, firstIndex, first, repeated, fails⟩
        · exact Or.inl passes
        · exact Or.inr ⟨_, fails, .repeated flawless repeated⟩

/-- A list that is refused can not be given a hash. -/
theorem Refused.not_valid {keywords : List Keyword} {error : Error} (refused : Refused keywords error) :
    ¬ Valid keywords := by
  intro valid
  cases refused with
  | empty eq_nil => exact valid.ne_nil eq_nil
  | flawed keyword_at flawed _ =>
      have member := List.mem_of_getElem? keyword_at
      have flawless := flaw?_eq_none_iff.2 ⟨valid.text_ne_empty _ member, valid.isAscii _ member⟩
      exact flaw?_eq_none_iff_not_flawed.1 flawless _ flawed
  | repeated _ repeated =>
      have index_lt := (List.getElem?_eq_some_iff.1 repeated.keyword_at).1
      refine List.nodup_iff_getElem?_ne_getElem?.1 valid.nodup _ _ repeated.index_lt ?_ ?_
      · rwa [List.length_map]
      · rw [List.getElem?_map, List.getElem?_map, repeated.first_at, repeated.keyword_at,
          Option.map_some, Option.map_some, repeated.text_eq]

end Keyword

namespace Search

open Keyword

/-- A search starts or ends with what is to be reported of its keywords. -/
theorem start_outcome (keywords : List Keyword) (maxTries : Nat) :
    (Valid keywords ∧ ∃ search, start keywords maxTries = .ok search)
      ∨ ∃ error, start keywords maxTries = .error error ∧ Refused keywords error := by
  rcases validate_outcome keywords with passes | ⟨error, fails, refused⟩
  · have valid := validate_eq_ok_iff.1 passes
    exact Or.inl ⟨valid, exists_start valid⟩
  · refine Or.inr ⟨error, ?_, refused⟩
    rw [start, fails]
    rfl

/-- A search starts with all keyword lists that have a keyword, non-empty ASCII texts only and no text
    twice, and so with all that are read from a text and are not empty. With any other list it ends with
    what is to be reported of it, and if that is a repeated text, there is one place in front of it. -/
theorem start_iff_and_refused (keywords : List Keyword) (maxTries : Nat) :
    ((∃ search, start keywords maxTries = .ok search) ↔
        keywords ≠ []
          ∧ (∀ keyword ∈ keywords, keyword.text ≠ "" ∧ ∀ c ∈ keyword.text.toList, c.toNat < 128)
          ∧ (keywords.map (·.text)).Nodup)
      ∧ (∀ error, start keywords maxTries = .error error ↔ Refused keywords error)
      ∧ (∀ index keyword firstIndex first firstIndex' first',
        FirstRepeat keywords index keyword firstIndex first →
        Repeats keywords index keyword firstIndex' first' → firstIndex' = firstIndex)
      ∧ ∀ text definitions, Definitions.parse text = .ok definitions → definitions.keywords ≠ [] →
        ∃ search, start definitions.keywords maxTries = .ok search := by
  refine ⟨?_, ?_, ?_, ?_⟩
  · constructor
    · rintro ⟨search, hStart⟩
      obtain ⟨valid, _⟩ := start_eq_ok hStart
      refine ⟨valid.ne_nil, fun keyword h => ?_, valid.nodup⟩
      exact ⟨valid.text_ne_empty keyword h, isAscii_iff.1 (valid.isAscii keyword h)⟩
    · rintro ⟨ne_nil, usable, nodup⟩
      apply exists_start
      constructor
      case ne_nil => exact ne_nil
      case text_ne_empty => exact fun keyword h => (usable keyword h).1
      case isAscii => exact fun keyword h => isAscii_iff.2 (usable keyword h).2
      case nodup => exact nodup
  · intro error
    rcases start_outcome keywords maxTries with ⟨valid, search, hStart⟩ | ⟨reported, fails, refused⟩
    · constructor
      · intro hError
        cases hStart.symm.trans hError
      · exact fun refused => absurd valid refused.not_valid
    · rw [fails]
      constructor
      · rintro ⟨⟩
        exact refused
      · intro hError
        rw [refused.unique hError]
  · intro index keyword firstIndex first firstIndex' first' repeated repeats
    exact repeated.firstIndex_unique repeats
  · intro text definitions hParse ne_nil
    exact exists_start ((Definitions.usable_of_parse hParse).1.valid ne_nil)

/-- A keyword that was read from a line is reported with that line, and any other one with its place. -/
example : validate
    [{ text := "if", payload := "If" }, { text := "in", payload := "In", line := 7 },
      { text := "in", payload := "Into" }, { text := "if", payload := "Iff", line := 2 }]
    = .error (.duplicateKeyword "in" 3 7) := by
  rfl

/-- Flaws are reported before repeated texts. -/
example : validate
    [{ text := "if", payload := "If" }, { text := "if", payload := "Iff" },
      { text := "", payload := "None" }]
    = .error (.invalidKeyword "" .empty) := by
  rfl

end Search

end KeywordHash
