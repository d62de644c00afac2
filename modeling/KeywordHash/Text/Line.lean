/-
Module: KeywordHash.Text.Line
Layer: Text
Purpose: The lines of a text. A line feed ends a line, together with one carriage return directly
  before it. What follows the last line feed is a line of its own unless it is empty, and keeps a
  final carriage return.
Imports: none
Trusted boundary: none
Main exports: lines, numberedLines
Open obligations: none
-/

namespace KeywordHash.Text

/-- A line without the carriage return at its end. -/
def withoutReturn (line : List Char) : List Char :=
  if line.getLast? = some '\r' then line.dropLast else line

/-- The lines of a text, without their endings. -/
def lines (text : List Char) : List (List Char) :=
  match h : text.dropWhile (· ≠ '\n') with
  | [] => if text.isEmpty then [] else [text]
  | _ :: rest =>
      have : rest.length < text.length := by
        have := (List.dropWhile_sublist (· ≠ '\n') (l := text)).length_le
        rw [h, List.length_cons] at this
        omega
      withoutReturn (text.takeWhile (· ≠ '\n')) :: lines rest
termination_by text.length

/-- The lines of a text with their numbers, counted from one. -/
def numberedLines (text : List Char) : List (List Char × Nat) :=
  (lines text).zipIdx 1

end KeywordHash.Text
