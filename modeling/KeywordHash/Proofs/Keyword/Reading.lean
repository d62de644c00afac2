/-
Module: KeywordHash.Proofs.Keyword.Reading
Layer: Proofs
Purpose: Reading a text of definitions finds what the text holds by the grammar of its lines
  (`parse_by_grammar`). What a text holds is told line by line, and the lines of its keywords go up
  (`Holds.ordered`). As long as no key is repeated, reading adds what each line holds; it ends at the
  first line with a key of an earlier line, of which there is one only since reading came this far.
Imports: KeywordHash.Proofs.Keyword.Grammar, KeywordHash.Proofs.Keyword.Validity,
  KeywordHash.Proofs.Outcome, KeywordHash.Proofs.Text.Line
Trusted boundary: none
Main exports: Keyword.FirstRepetition, Definitions.Holds, Definitions.addLines_of_holds,
  Definitions.addLines_of_repetition, Definitions.parse_by_grammar
Open obligations: none
-/
import KeywordHash.Proofs.Keyword.Grammar
import KeywordHash.Proofs.Keyword.Validity
import KeywordHash.Proofs.Outcome
import KeywordHash.Proofs.Text.Line

namespace KeywordHash

/-! ### Repeated keys -/

namespace Keyword

/-- The keyword is on the first line whose key is the key of an earlier line, and that line defines the
    other one. -/
structure FirstRepetition (keywords : List Keyword) (keyword first : Keyword) : Prop where
  mem : keyword ∈ keywords
  first_mem : first ∈ keywords
  line_lt : first.line < keyword.line
  text_eq : first.text = keyword.text
  first_unique : ∀ earlier ∈ keywords, earlier.line < keyword.line → earlier.text = keyword.text →
    earlier = first
  least : ∀ earlier ∈ keywords, ∀ later ∈ keywords, earlier.line < later.line →
    earlier.text = later.text → keyword.line ≤ later.line

/-- A list with a repeated text has a longest front part without one, and behind it a keyword with a text
    of that part. The induction takes keywords off the end. -/
theorem exists_repetition {keywords : List Keyword} (h : ¬ (keywords.map (·.text)).Nodup) :
    ∃ before keyword after first, keywords = before ++ keyword :: after
      ∧ (before.map (·.text)).Nodup ∧ first ∈ before ∧ first.text = keyword.text := by
  induction keywords using List.reverseRecOn with
  | nil => exact absurd List.nodup_nil h
  | append_singleton front last ih =>
      by_cases nodup : (front.map (·.text)).Nodup
      · have repeated : ∃ first ∈ front, first.text = last.text := by
          by_contra new
          apply h
          rw [List.map_append, List.nodup_append]
          refine ⟨nodup, List.nodup_singleton _, ?_⟩
          rintro text hText other hOther rfl
          obtain ⟨first, hFirst, rfl⟩ := List.mem_map.1 hText
          exact new ⟨first, hFirst, List.mem_singleton.1 hOther⟩
        obtain ⟨first, hFirst, same⟩ := repeated
        exact ⟨front, last, [], first, rfl, nodup, hFirst, same⟩
      · obtain ⟨before, keyword, after, first, rfl, nodup_before, hFirst, same⟩ := ih nodup
        refine ⟨before, keyword, after ++ [last], first, ?_, nodup_before, hFirst, same⟩
        rw [List.append_assoc, List.cons_append]

/-- In a list in the order of its lines, the keyword behind the longest front part without a repeated text
    is on the first line that repeats one. -/
theorem firstRepetition_of_append {before after : List Keyword} {keyword first : Keyword}
    (ordered : (before ++ keyword :: after).Pairwise (·.line < ·.line))
    (nodup : (before.map (·.text)).Nodup) (hFirst : first ∈ before)
    (same : first.text = keyword.text) :
    FirstRepetition (before ++ keyword :: after) keyword first := by
  obtain ⟨_, ordered_behind, ordered_across⟩ := List.pairwise_append.1 ordered
  have mem_before : ∀ earlier ∈ before ++ keyword :: after, earlier.line < keyword.line →
      earlier ∈ before := by
    intro earlier hEarlier line_lt
    rcases List.mem_append.1 hEarlier with inFront | behind
    · exact inFront
    · rcases List.mem_cons.1 behind with rfl | inAfter
      · exact absurd line_lt (Nat.lt_irrefl _)
      · have line_gt := List.rel_of_pairwise_cons ordered_behind inAfter
        omega
  have text_inj : ∀ one ∈ before, ∀ other ∈ before, one.text = other.text → one = other :=
    fun _ hOne _ hOther => List.inj_on_of_nodup_map nodup hOne hOther
  constructor
  case mem => exact List.mem_append_right _ List.mem_cons_self
  case first_mem => exact List.mem_append_left _ hFirst
  case line_lt => exact ordered_across first hFirst keyword List.mem_cons_self
  case text_eq => exact same
  case first_unique =>
    intro earlier hEarlier line_lt text_eq
    exact text_inj earlier (mem_before earlier hEarlier line_lt) first hFirst (text_eq.trans same.symm)
  case least =>
    intro earlier hEarlier later hLater line_lt text_eq
    by_contra lineBefore
    have later_lt : later.line < keyword.line := Nat.lt_of_not_le lineBefore
    have hLater' := mem_before later hLater later_lt
    have hEarlier' := mem_before earlier hEarlier (Nat.lt_trans line_lt later_lt)
    rw [text_inj earlier hEarlier' later hLater' text_eq] at line_lt
    exact Nat.lt_irrefl _ line_lt

end Keyword

namespace Definitions

/-! ### What lines hold -/

/-- The numbered lines hold these keywords and malformed lines. -/
inductive Holds : List (List Char × Nat) → List Keyword → List MalformedLine → Prop where
  | nil : Holds [] [] []
  | ignored {raw : List Char} {number : Nat} {rest : List (List Char × Nat)}
      {keywords : List Keyword} {malformed : List MalformedLine}
      (hLine : Line.Means raw .ignored) (hRest : Holds rest keywords malformed) :
      Holds ((raw, number) :: rest) keywords malformed
  | record {raw key payload : List Char} {number : Nat} {rest : List (List Char × Nat)}
      {keywords : List Keyword} {malformed : List MalformedLine}
      (hLine : Line.Means raw (.record key payload)) (hRest : Holds rest keywords malformed) :
      Holds ((raw, number) :: rest)
        ({ text := String.ofList key, payload := String.ofList payload, line := number } :: keywords)
        malformed
  | malformed {raw : List Char} {number : Nat} {rest : List (List Char × Nat)}
      {keywords : List Keyword} {malformed : List MalformedLine}
      (hLine : Line.Means raw .malformed) (hRest : Holds rest keywords malformed) :
      Holds ((raw, number) :: rest) keywords
        ({ line := number, text := String.ofList raw } :: malformed)

namespace Holds

/-- Any lines hold something. -/
theorem exists_holds (lines : List (List Char × Nat)) :
    ∃ keywords malformed, Holds lines keywords malformed := by
  induction lines with
  | nil => exact ⟨[], [], .nil⟩
  | cons line rest ih =>
      obtain ⟨raw, number⟩ := line
      obtain ⟨keywords, malformed, hRest⟩ := ih
      have hLine := Line.means_classify raw
      cases hClass : Line.classify raw with
      | ignored => exact ⟨keywords, malformed, .ignored (hClass ▸ hLine) hRest⟩
      | record key payload => exact ⟨_, malformed, .record (hClass ▸ hLine) hRest⟩
      | malformed => exact ⟨keywords, _, .malformed (hClass ▸ hLine) hRest⟩

/-- What lines hold is told by the lines. -/
theorem unique {lines : List (List Char × Nat)} {keywords keywords' : List Keyword}
    {malformed malformed' : List MalformedLine} (holds : Holds lines keywords malformed)
    (holds' : Holds lines keywords' malformed') : keywords' = keywords ∧ malformed' = malformed := by
  induction holds generalizing keywords' malformed' with
  | nil =>
      cases holds'
      exact ⟨rfl, rfl⟩
  | ignored hLine _ ih =>
      cases holds' with
      | ignored _ hRest' => exact ih hRest'
      | record hLine' | malformed hLine' => cases hLine.unique hLine'
  | record hLine _ ih =>
      cases holds' with
      | ignored hLine' | malformed hLine' => cases hLine.unique hLine'
      | record hLine' hRest' =>
          cases hLine.unique hLine'
          obtain ⟨rfl, rfl⟩ := ih hRest'
          exact ⟨rfl, rfl⟩
  | malformed hLine _ ih =>
      cases holds' with
      | ignored hLine' | record hLine' => cases hLine.unique hLine'
      | malformed _ hRest' =>
          obtain ⟨rfl, rfl⟩ := ih hRest'
          exact ⟨rfl, rfl⟩

/-- Keywords are on lines of their own, in the order of the lines. -/
theorem sublist {lines : List (List Char × Nat)} {keywords : List Keyword}
    {malformed : List MalformedLine} (holds : Holds lines keywords malformed) :
    (keywords.map (·.line)).Sublist (lines.map (·.2)) := by
  induction holds with
  | nil => exact List.Sublist.slnil
  | ignored _ _ ih => exact ih.cons _
  | record _ _ ih => exact ih.cons_cons _
  | malformed _ _ ih => exact ih.cons _

/-- The lines of the keywords go up. -/
theorem ordered {lines : List (List Char)} {start : Nat} {keywords : List Keyword}
    {malformed : List MalformedLine} (holds : Holds (lines.zipIdx start) keywords malformed) :
    keywords.Pairwise (·.line < ·.line) := by
  have numbers : ((lines.zipIdx start).map (·.2)).Pairwise (· < ·) := by
    rw [List.zipIdx_map_snd]
    exact List.pairwise_lt_range'
  exact List.pairwise_map.1 (numbers.sublist holds.sublist)

/-- The lines in front of a keyword hold what is in front of it. -/
theorem split {lines : List (List Char × Nat)} {keywords before after : List Keyword}
    {keyword : Keyword} {malformed : List MalformedLine} (holds : Holds lines keywords malformed)
    (h : keywords = before ++ keyword :: after) :
    ∃ front raw number behind key payload malformedInFront, lines = front ++ (raw, number) :: behind
      ∧ Holds front before malformedInFront ∧ Line.Means raw (.record key payload)
      ∧ keyword
        = { text := String.ofList key, payload := String.ofList payload, line := number } := by
  induction holds generalizing before with
  | nil => exact absurd h (List.append_ne_nil_of_right_ne_nil _ (List.cons_ne_nil _ _)).symm
  | @ignored raw number _ _ _ hLine _ ih =>
      obtain ⟨front, raw', number', behind, key, payload, skipped, rfl, hFront, hRecord⟩ := ih h
      exact ⟨(raw, number) :: front, raw', number', behind, key, payload, skipped, rfl,
        .ignored hLine hFront, hRecord⟩
  | @malformed raw number _ _ _ hLine _ ih =>
      obtain ⟨front, raw', number', behind, key, payload, skipped, rfl, hFront, hRecord⟩ := ih h
      exact ⟨(raw, number) :: front, raw', number', behind, key, payload, _, rfl,
        .malformed hLine hFront, hRecord⟩
  | @record raw key payload number rest _ _ hLine _ ih =>
      cases before with
      | nil =>
          injection h with keyword_eq _
          exact ⟨[], raw, number, rest, key, payload, [], rfl, .nil, hLine, keyword_eq.symm⟩
      | cons earlier before =>
          injection h with earlier_eq rest_eq
          obtain ⟨front, raw', number', behind, key', payload', skipped, rfl, hFront, hRecord⟩ :=
            ih rest_eq
          subst earlier_eq
          exact ⟨(raw, number) :: front, raw', number', behind, key', payload', skipped, rfl,
            .record hLine hFront, hRecord⟩

end Holds

/-! ### Reading lines -/

section

variable {definitions : Definitions} {raw key payload : List Char} {number : Nat}

theorem addLine_of_ignored (hLine : Line.Means raw .ignored) :
    definitions.addLine raw number = .ok definitions := by
  rw [addLine, Line.means_iff_classify.1 hLine]

theorem addLine_of_malformed (hLine : Line.Means raw .malformed) :
    definitions.addLine raw number = .ok { definitions with
      skipped := definitions.skipped ++ [{ line := number, text := String.ofList raw }] } := by
  rw [addLine, Line.means_iff_classify.1 hLine]

/-- A record with a new key is added. -/
theorem addLine_of_new (hLine : Line.Means raw (.record key payload))
    (new : Keyword.find? definitions.keywords (String.ofList key) = none) :
    definitions.addLine raw number = .ok { definitions with
      keywords := definitions.keywords ++
        [{ text := String.ofList key, payload := String.ofList payload, line := number }] } := by
  rw [addLine, Line.means_iff_classify.1 hLine]
  simp only [new]

/-- A record with a known key is an error. -/
theorem addLine_of_known {first : Keyword} (hLine : Line.Means raw (.record key payload))
    (known : Keyword.find? definitions.keywords (String.ofList key) = some first) :
    definitions.addLine raw number
      = .error (.duplicateKeyword (String.ofList key) number first.line) := by
  rw [addLine, Line.means_iff_classify.1 hLine]
  simp only [known]

end

/-- Take in lines, one behind the other. -/
def addLines (definitions : Definitions) (lines : List (List Char × Nat)) : Except Error Definitions :=
  lines.foldlM (fun definitions (raw, number) => definitions.addLine raw number) definitions

theorem parse_eq (text : String) : parse text = addLines {} (Text.numberedLines text.toList) := rfl

theorem addLines_nil (definitions : Definitions) : definitions.addLines [] = .ok definitions := rfl

theorem addLines_cons (definitions : Definitions) (raw : List Char) (number : Nat)
    (rest : List (List Char × Nat)) : definitions.addLines ((raw, number) :: rest)
      = definitions.addLine raw number >>= fun after => after.addLines rest :=
  List.foldlM_cons

theorem addLines_append (definitions : Definitions) (front behind : List (List Char × Nat)) :
    definitions.addLines (front ++ behind)
      = definitions.addLines front >>= fun after => after.addLines behind :=
  List.foldlM_append

/-- As long as no key is repeated, reading lines adds what they hold. -/
theorem addLines_of_holds {lines : List (List Char × Nat)} {keywords : List Keyword}
    {malformed : List MalformedLine} (holds : Holds lines keywords malformed)
    {definitions : Definitions} (nodup : ((definitions.keywords ++ keywords).map (·.text)).Nodup) :
    definitions.addLines lines
      = .ok { keywords := definitions.keywords ++ keywords,
              skipped := definitions.skipped ++ malformed } := by
  induction holds generalizing definitions with
  | nil => rw [addLines_nil, List.append_nil, List.append_nil]
  | ignored hLine _ ih => rw [addLines_cons, addLine_of_ignored hLine, ok_bind, ih nodup]
  | malformed hLine _ ih =>
      have reads := fun skipped => @ih { definitions with skipped := skipped } nodup
      rw [addLines_cons, addLine_of_malformed hLine, ok_bind, reads, ← List.append_cons]
  | record hLine _ ih =>
      rw [List.append_cons] at nodup
      have nodup_front := (List.map_append ▸ nodup).of_append_left
      rw [addLines_cons, addLine_of_new hLine (Keyword.find?_eq_none_of_nodup nodup_front), ok_bind,
        ih nodup, ← List.append_cons]

/-- Reading ends at the first line with a key of an earlier one. -/
theorem addLines_of_repetition {lines : List (List Char × Nat)} {before after : List Keyword}
    {keyword first : Keyword} {malformed : List MalformedLine}
    (holds : Holds lines (before ++ keyword :: after) malformed)
    (nodup : (before.map (·.text)).Nodup) (hFirst : first ∈ before)
    (same : first.text = keyword.text) :
    addLines {} lines = .error (.duplicateKeyword keyword.text keyword.line first.line) := by
  obtain ⟨front, raw, number, behind, key, payload, skipped, rfl, hFront, hLine, rfl⟩ :=
    holds.split rfl
  have reads : addLines {} front = .ok { keywords := before, skipped := skipped } :=
    @addLines_of_holds _ _ _ hFront {} nodup
  have known : Keyword.find? before (String.ofList key) = some first :=
    (Keyword.find?_eq_some_iff nodup).2 ⟨hFirst, same⟩
  rw [addLines_append, reads, ok_bind, addLines_cons, addLine_of_known hLine known]
  rfl

/-- Reading a text finds what it holds. The text splits into lines in one way, each line is taken apart
    in one way at most, and the lines hold keywords and malformed lines in one way. If no key is repeated
    these are the answer; otherwise the first line that repeats a key is reported, with the only earlier
    line of that key. -/
theorem parse_by_grammar (text : String) :
    ∃ lines keywords malformed,
      (∀ lines', Text.SplitsInto text.toList lines' ↔ lines' = lines)
        ∧ (∀ body key separator payload trail key' separator' payload' trail',
          Line.Decomposition body key separator payload trail →
          Line.Decomposition body key' separator' payload' trail' →
          key' = key ∧ separator' = separator ∧ payload' = payload ∧ trail' = trail)
        ∧ (∀ keywords' malformed', Holds (lines.zipIdx 1) keywords' malformed'
          ↔ keywords' = keywords ∧ malformed' = malformed)
        ∧ ((keywords.map (·.text)).Nodup →
          parse text = .ok { keywords := keywords, skipped := malformed })
        ∧ (¬ (keywords.map (·.text)).Nodup →
          ∃ keyword first, Keyword.FirstRepetition keywords keyword first
            ∧ parse text = .error (.duplicateKeyword keyword.text keyword.line first.line)) := by
  obtain ⟨keywords, malformed, holds⟩ := Holds.exists_holds (Text.numberedLines text.toList)
  refine ⟨Text.lines text.toList, keywords, malformed, ?_, ?_, ?_, ?_, ?_⟩
  · exact fun lines' => Text.splitsInto_iff.trans eq_comm
  · intro body key separator payload trail key' separator' payload' trail' parts parts'
    exact parts.unique parts'
  · intro keywords' malformed'
    constructor
    · exact holds.unique
    · rintro ⟨rfl, rfl⟩
      exact holds
  · intro nodup
    rw [parse_eq]
    exact @addLines_of_holds _ _ _ holds {} nodup
  · intro repeated
    obtain ⟨before, keyword, after, first, rfl, nodup, hFirst, same⟩ :=
      Keyword.exists_repetition repeated
    refine ⟨keyword, first, Keyword.firstRepetition_of_append holds.ordered nodup hFirst same, ?_⟩
    rw [parse_eq]
    exact addLines_of_repetition holds nodup hFirst same

end Definitions

end KeywordHash
