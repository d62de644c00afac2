/-
Module: KeywordHash.Proofs.Text.Line
Layer: Proofs
Purpose: A text splits into its lines in one way only, told by how lines are ended (`splitsInto_iff`).
  Lines are taken from a text one behind the other, so together they have no more characters than the
  text, and no more than the text has bytes. There are no more lines than bytes.
Imports: KeywordHash.Proofs.Text.Bytes, KeywordHash.Proofs.Text.Span, KeywordHash.Text.Line,
  Mathlib.Algebra.Ring.Nat
Trusted boundary: none
Main exports: lines_eq, withoutReturn_append, SplitsInto, lines_append_feed,
  lines_append_returnFeed, splitsInto_iff, sum_length_lines_le, length_lines_le,
  sum_length_numberedLines_le, number_le_of_mem
Open obligations: none
-/
import KeywordHash.Proofs.Text.Bytes
import KeywordHash.Proofs.Text.Span
import KeywordHash.Text.Line
import Mathlib.Algebra.Ring.Nat

namespace KeywordHash.Text

/-- A text without a line feed is one line or none; otherwise the lines behind the first line feed follow
    the line in front of it. -/
theorem lines_eq (text : List Char) :
    lines text = match text.dropWhile (· ≠ '\n') with
      | [] => if text.isEmpty then [] else [text]
      | _ :: rest => withoutReturn (text.takeWhile (· ≠ '\n')) :: lines rest := by
  rw [lines]
  split <;> simp only [*]

/-! ### How lines end -/

/-- The text consists of these lines, each with the way it ends: not at all, which only the last line may
    do and only if it is not empty, with a line feed, or with a carriage return and a line feed. -/
inductive SplitsInto : List Char → List (List Char) → Prop where
  | nothing : SplitsInto [] []
  | unended {line : List Char} (ne_nil : line ≠ []) (noFeed : ∀ c ∈ line, c ≠ '\n') :
      SplitsInto line [line]
  | feed {line rest : List Char} {behind : List (List Char)} (noFeed : ∀ c ∈ line, c ≠ '\n')
      (noReturn : line.getLast? ≠ some '\r') (h : SplitsInto rest behind) :
      SplitsInto (line ++ '\n' :: rest) (line :: behind)
  | returnFeed {line rest : List Char} {behind : List (List Char)} (noFeed : ∀ c ∈ line, c ≠ '\n')
      (h : SplitsInto rest behind) : SplitsInto (line ++ '\r' :: '\n' :: rest) (line :: behind)

/-- A carriage return at the end of a line is dropped, and nothing else is. -/
theorem withoutReturn_concat (line : List Char) (c : Char) :
    withoutReturn (line ++ [c]) = if c = '\r' then line else line ++ [c] := by
  simp [withoutReturn]

/-- Nothing is dropped of a part that does not end in a carriage return, whatever comes behind it. -/
theorem withoutReturn_append {first second : List Char} (ends : ∀ c ∈ first.getLast?, c ≠ '\r') :
    withoutReturn (first ++ second) = first ++ withoutReturn second := by
  rcases List.eq_nil_or_concat second with rfl | ⟨front, c, rfl⟩
  · have noReturn : first.getLast? ≠ some '\r' := fun isReturn => ends '\r' isReturn rfl
    simp [withoutReturn, noReturn]
  · rw [List.concat_eq_append, ← List.append_assoc, withoutReturn_concat, withoutReturn_concat]
    split <;> simp

theorem mem_of_mem_withoutReturn {line : List Char} {c : Char} (h : c ∈ withoutReturn line) :
    c ∈ line := by
  rw [withoutReturn] at h
  split at h
  · exact List.dropLast_subset line h
  · exact h

/-- The line in front of the first line feed. -/
theorem lines_append_feed {line : List Char} (noFeed : ∀ c ∈ line, c ≠ '\n') (rest : List Char) :
    lines (line ++ '\n' :: rest) = withoutReturn line :: lines rest := by
  have pass : ∀ c ∈ line, decide (c ≠ '\n') := fun c hc => decide_eq_true (noFeed c hc)
  have stop : ∀ c ∈ ('\n' :: rest).head?, ¬ decide (c ≠ '\n') := by
    rintro _ ⟨⟩
    decide
  obtain ⟨takes, drops⟩ := span_append pass stop
  rw [lines_eq, drops, takes]

/-- The line in front of the first line feed, if there is a carriage return between them. -/
theorem lines_append_returnFeed {line : List Char} (noFeed : ∀ c ∈ line, c ≠ '\n')
    (rest : List Char) : lines (line ++ '\r' :: '\n' :: rest) = line :: lines rest := by
  have noFeed' : ∀ c ∈ line ++ ['\r'], c ≠ '\n' := by
    intro c hc
    rcases List.mem_append.1 hc with before | last
    · exact noFeed c before
    · rw [List.mem_singleton.1 last]
      decide
  rw [List.append_cons, lines_append_feed noFeed', withoutReturn_concat, if_pos rfl]

theorem lines_of_noFeed {line : List Char} (ne_nil : line ≠ []) (noFeed : ∀ c ∈ line, c ≠ '\n') :
    lines line = [line] := by
  have drops : line.dropWhile (· ≠ '\n') = [] :=
    List.dropWhile_eq_nil_iff.2 fun c hc => decide_eq_true (noFeed c hc)
  rw [lines_eq, drops]
  simpa using ne_nil

theorem lines_of_splitsInto {text : List Char} {found : List (List Char)}
    (h : SplitsInto text found) : lines text = found := by
  induction h with
  | nothing => rw [lines_eq]; rfl
  | unended ne_nil noFeed => exact lines_of_noFeed ne_nil noFeed
  | feed noFeed noReturn _ ih => rw [lines_append_feed noFeed, ih, withoutReturn, if_neg noReturn]
  | returnFeed noFeed _ ih => rw [lines_append_returnFeed noFeed, ih]

theorem splitsInto_lines (text : List Char) : SplitsInto text (lines text) := by
  induction text using lines.induct with
  | case1 text noFeed empty =>
      rw [List.isEmpty_iff.1 empty, lines_eq]
      exact .nothing
  | case2 text noFeed nonempty =>
      have ne_nil : text ≠ [] := fun same => nonempty (List.isEmpty_iff.2 same)
      have noFeed' : ∀ c ∈ text, c ≠ '\n' := fun c hc =>
        of_decide_eq_true (List.dropWhile_eq_nil_iff.1 noFeed c hc)
      rw [lines_of_noFeed ne_nil noFeed']
      exact .unended ne_nil noFeed'
  | case3 text c rest hFeed _ ih =>
      have feed : c = '\n' := by
        have stop := List.head?_dropWhile_not (fun c => decide (c ≠ '\n')) text
        rw [hFeed] at stop
        simpa using stop
      have parts := List.takeWhile_append_dropWhile (p := fun c => decide (c ≠ '\n')) (l := text)
      have noFeed : ∀ c ∈ text.takeWhile (fun c => decide (c ≠ '\n')), c ≠ '\n' := by
        intro c hc
        simpa using List.mem_takeWhile_imp hc
      rw [hFeed, feed] at parts
      generalize text.takeWhile (fun c => decide (c ≠ '\n')) = line at parts noFeed
      rw [← parts, lines_append_feed noFeed]
      by_cases hReturn : line.getLast? = some '\r'
      · rw [withoutReturn, if_pos hReturn]
        obtain ⟨front, rfl⟩ := List.getLast?_eq_some_iff.1 hReturn
        rw [List.dropLast_concat, ← List.append_cons]
        exact .returnFeed (fun c hc => noFeed c (List.mem_append_left _ hc)) ih
      · rw [withoutReturn, if_neg hReturn]
        exact .feed noFeed hReturn ih

/-- The lines of a text are those it splits into. -/
theorem splitsInto_iff {text : List Char} {found : List (List Char)} :
    SplitsInto text found ↔ lines text = found := by
  constructor
  · exact lines_of_splitsInto
  · rintro rfl
    exact splitsInto_lines text

/-! ### How many lines there are -/

theorem length_withoutReturn_le (line : List Char) : (withoutReturn line).length ≤ line.length := by
  rw [withoutReturn]
  split
  · rw [List.length_dropLast]
    exact Nat.sub_le _ _
  · exact Nat.le_refl _

/-- Lines have no characters that are not in the text. The induction follows the lines. -/
theorem sum_length_lines_le (text : List Char) : ((lines text).map List.length).sum ≤ text.length := by
  induction text using lines.induct with
  | case1 text noFeed empty =>
      rw [lines_eq, noFeed]
      simp [empty]
  | case2 text noFeed nonempty =>
      rw [lines_eq, noFeed]
      simp [nonempty]
  | case3 text feed rest hFeed _ ih =>
      have parts := congrArg List.length
        (List.takeWhile_append_dropWhile (p := fun c => decide (c ≠ '\n')) (l := text))
      rw [List.length_append, hFeed, List.length_cons] at parts
      have line_le := length_withoutReturn_le (text.takeWhile (· ≠ '\n'))
      rw [lines_eq, hFeed]
      simp only [List.map_cons, List.sum_cons]
      omega

/-- There are no more lines than characters. -/
theorem length_lines_le (text : List Char) : (lines text).length ≤ text.length := by
  induction text using lines.induct with
  | case1 text noFeed empty =>
      rw [lines_eq, noFeed]
      simp [empty]
  | case2 text noFeed nonempty =>
      rw [lines_eq, noFeed]
      have length_pos : 0 < text.length := by simpa [List.length_pos_iff] using nonempty
      simp only [nonempty, Bool.false_eq_true, if_false]
      exact length_pos
  | case3 text feed rest hFeed shorter ih =>
      rw [lines_eq, hFeed]
      simp only [List.length_cons]
      omega

/-- A character has at least one byte. -/
theorem length_toList_le (text : String) : text.toList.length ≤ text.utf8ByteSize := by
  have encoded : bytes text = text.toList.flatMap String.utf8EncodeChar := by
    rw [← bytes_ofList, String.ofList_toList]
  rw [← length_bytes, encoded]
  generalize text.toList = characters
  induction characters with
  | nil => exact Nat.le_refl _
  | cons c rest ih =>
      have some_byte : 0 < (String.utf8EncodeChar c).length := by
        rw [String.length_utf8EncodeChar]
        exact Char.utf8Size_pos c
      rw [List.flatMap_cons, List.length_append, List.length_cons]
      omega

/-- The numbered lines of a text have no more characters than the text has bytes. -/
theorem sum_length_numberedLines_le (text : String) :
    ((numberedLines text.toList).map fun line => line.1.length).sum ≤ text.utf8ByteSize := by
  have unnumbered : (numberedLines text.toList).map (fun line => line.1.length)
      = (lines text.toList).map List.length := by
    rw [numberedLines, ← List.zipIdx_map_fst 1 (lines text.toList), List.map_map,
      List.zipIdx_map_fst]
    rfl
  rw [unnumbered]
  exact Nat.le_trans (sum_length_lines_le text.toList) (length_toList_le text)

/-- The number of a line is no greater than the number of bytes of the text. -/
theorem number_le_of_mem {text : String} {line : List Char × Nat}
    (h : line ∈ numberedLines text.toList) : line.2 ≤ text.utf8ByteSize := by
  obtain ⟨raw, number⟩ := line
  have number_lt := (List.mem_zipIdx h).2.1
  have lines_le := length_lines_le text.toList
  have bytes_le := length_toList_le text
  dsimp only
  omega

end KeywordHash.Text
