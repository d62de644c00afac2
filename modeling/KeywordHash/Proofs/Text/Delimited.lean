/-
Module: KeywordHash.Proofs.Text.Delimited
Layer: Proofs
Purpose: Texts put together from parts that do not contain the first character of the delimiter can be
  taken apart again, whether the delimiter ends each part (`flatMap_ended_inj`) or stands between them
  (`intercalate_inj`). Lines and lists of numbers are put together like this.
Imports: KeywordHash.Proofs.Text.Span
Trusted boundary: none
Main exports: flatMap_ended_inj, intercalate_inj, framed_inj, OneLine, OneLines, join_lines_inj,
  intercalate_comma_inj, repr_inj, notMem_repr
Open obligations: none
-/
import KeywordHash.Proofs.Text.Span

namespace KeywordHash.Text

/-! ### Lists of parts -/

section

variable {α : Type} {x : α} {behind : List α} {parts parts' : List (List α)}
  (notMem : ∀ part ∈ parts, x ∉ part) (notMem' : ∀ part ∈ parts', x ∉ part)

include notMem notMem'

/-- Parts that are each ended by the delimiter are told by the whole. -/
theorem flatMap_ended_inj
    (same : parts.flatMap (· ++ x :: behind) = parts'.flatMap (· ++ x :: behind)) :
    parts = parts' := by
  induction parts generalizing parts' with
  | nil =>
      cases parts' with
      | nil => rfl
      | cons part' rest' => simp at same
  | cons part rest ih =>
      cases parts' with
      | nil => simp at same
      | cons part' rest' =>
          rw [List.forall_mem_cons] at notMem notMem'
          simp only [List.flatMap_cons, List.append_assoc, List.cons_append] at same
          obtain ⟨rfl, behind_eq⟩ := append_cons_inj notMem.1 notMem'.1 same
          rw [ih notMem.2 notMem'.2 (List.append_cancel_left behind_eq)]

omit notMem notMem' in
/-- With one more delimiter behind them, parts with delimiters between them are each ended by one. -/
theorem intercalate_append (delimiter : List α) (ne_nil : parts ≠ []) :
    delimiter.intercalate parts ++ delimiter = parts.flatMap (· ++ delimiter) := by
  induction parts with
  | nil => exact absurd rfl ne_nil
  | cons part rest ih =>
      cases rest with
      | nil => simp
      | cons next rest =>
          rw [List.intercalate_cons_cons, List.append_assoc, List.append_assoc,
            ih (List.cons_ne_nil _ _)]
          simp only [List.flatMap_cons, List.append_assoc]

/-- Parts with the delimiter between them are told by the whole, if there are any. -/
theorem intercalate_inj (ne_nil : parts ≠ []) (ne_nil' : parts' ≠ [])
    (same : (x :: behind).intercalate parts = (x :: behind).intercalate parts') : parts = parts' := by
  have ended : parts.flatMap (· ++ x :: behind) = parts'.flatMap (· ++ x :: behind) := by
    rw [← intercalate_append _ ne_nil, ← intercalate_append _ ne_nil', same]
  exact flatMap_ended_inj notMem notMem' ended

end

/-! ### Lines and lists of numbers -/

/-- Between the same texts, different texts make a difference. -/
theorem framed_inj {front back text text' : String}
    (same : front ++ text ++ back = front ++ text' ++ back) : text = text' :=
  (String.append_right_inj _).1 ((String.append_left_inj _).1 same)

/-- The text has no line feed. -/
def OneLine (text : String) : Prop :=
  '\n' ∉ text.toList

/-- A text has no line feed if none of its characters is one. Texts that are written out are checked by
    their characters. -/
theorem oneLine_ofList {characters : List Char} (noFeed : '\n' ∉ characters) :
    OneLine (String.ofList characters) := by
  rwa [OneLine, String.toList_ofList]

@[simp]
theorem oneLine_append_iff {front back : String} :
    OneLine (front ++ back) ↔ OneLine front ∧ OneLine back := by
  rw [OneLine, String.toList_append, List.mem_append, not_or]
  rfl

@[simp]
theorem oneLine_toString_iff {text : String} : OneLine (toString text) ↔ OneLine text :=
  Iff.rfl

/-- None of the texts has a line feed. -/
def OneLines (lines : List String) : Prop :=
  ∀ line ∈ lines, OneLine line

@[simp]
theorem oneLines_nil : OneLines [] :=
  fun _ hLine => absurd hLine List.not_mem_nil

@[simp]
theorem oneLines_cons_iff {line : String} {rest : List String} :
    OneLines (line :: rest) ↔ OneLine line ∧ OneLines rest :=
  List.forall_mem_cons

@[simp]
theorem oneLines_append_iff {front behind : List String} :
    OneLines (front ++ behind) ↔ OneLines front ∧ OneLines behind :=
  List.forall_mem_append

@[simp]
theorem oneLines_map_iff {α : Type} {line : α → String} {list : List α} :
    OneLines (list.map line) ↔ ∀ a ∈ list, OneLine (line a) :=
  List.forall_mem_map

@[simp]
theorem oneLines_flatMap_iff {α : Type} {lines : α → List String} {list : List α} :
    OneLines (list.flatMap lines) ↔ ∀ a ∈ list, OneLines (lines a) :=
  List.forall_mem_flatMap

theorem map_toList_inj {texts texts' : List String}
    (same : texts.map String.toList = texts'.map String.toList) : texts = texts' :=
  List.map_injective_iff.2 (fun _ _ => String.toList_injective) same

theorem toList_join_lines (lines : List String) :
    (String.join (lines.map (· ++ "\n"))).toList
      = (lines.map String.toList).flatMap (· ++ ['\n']) := by
  rw [String.toList_join, List.flatMap_map, List.flatMap_map]
  simp only [String.toList_append]
  rfl

/-- Lines are told by the text that they make up. -/
theorem join_lines_inj {lines lines' : List String} (oneLines : OneLines lines)
    (oneLines' : OneLines lines')
    (same : String.join (lines.map (· ++ "\n")) = String.join (lines'.map (· ++ "\n"))) :
    lines = lines' := by
  have same' := congrArg String.toList same
  rw [toList_join_lines, toList_join_lines] at same'
  exact map_toList_inj (flatMap_ended_inj (List.forall_mem_map.2 oneLines)
    (List.forall_mem_map.2 oneLines') same')

/-- Texts without a comma are told by the text that lists them. -/
theorem intercalate_comma_inj {parts parts' : List String} (ne_nil : parts ≠ []) (ne_nil' : parts' ≠ [])
    (notMem : ∀ part ∈ parts, ',' ∉ part.toList) (notMem' : ∀ part ∈ parts', ',' ∉ part.toList)
    (same : String.intercalate ", " parts = String.intercalate ", " parts') : parts = parts' := by
  have same' := congrArg String.toList same
  rw [String.toList_intercalate, String.toList_intercalate] at same'
  exact map_toList_inj (intercalate_inj (List.forall_mem_map.2 notMem) (List.forall_mem_map.2 notMem')
    (mt List.map_eq_nil_iff.1 ne_nil) (mt List.map_eq_nil_iff.1 ne_nil') same')

/-- A decimal numeral tells its number. -/
theorem repr_inj {m n : Nat} (same : Nat.repr m = Nat.repr n) : m = n := by
  have digits_eq := congrArg String.toList same
  rw [Nat.repr, Nat.repr, String.toList_ofList, String.toList_ofList] at digits_eq
  rw [← @Nat.ofDigitChars_ten_toDigits m, digits_eq, Nat.ofDigitChars_ten_toDigits]

/-- Only digits stand in a decimal numeral. -/
theorem notMem_repr {c : Char} (noDigit : ¬ c.isDigit) (n : Nat) : c ∉ (Nat.repr n).toList := by
  intro member
  rw [Nat.repr, String.toList_ofList] at member
  exact noDigit (Nat.isDigit_of_mem_toDigits (by decide) (by decide) member)

@[simp]
theorem oneLine_toString (n : Nat) : OneLine (toString n) :=
  notMem_repr (by decide) n

@[simp]
theorem oneLine_repr (n : Nat) : OneLine (Nat.repr n) :=
  notMem_repr (by decide) n

/-- A list of texts has no line feed if none of them has one. -/
theorem oneLine_intercalate {delimiter : String} {parts : List String} (oneLine : OneLine delimiter)
    (oneLines : OneLines parts) : OneLine (String.intercalate delimiter parts) := by
  induction parts with
  | nil =>
      rw [String.intercalate_nil]
      exact oneLine_ofList List.not_mem_nil
  | cons part rest ih =>
      rw [oneLines_cons_iff] at oneLines
      cases rest with
      | nil => simpa using oneLines.1
      | cons next rest =>
          rw [String.intercalate_cons_cons, oneLine_append_iff, oneLine_append_iff]
          exact ⟨⟨oneLines.1, oneLine⟩, ih oneLines.2⟩

end KeywordHash.Text
