/-
Module: KeywordHash.Proofs.Table.Probe
Layer: Proofs
Purpose: What becomes of probes in a table whose slots can be read. A probe is found only under its own
  text, so no probe is a false positive (`falsePositives_eq_ok`), and each one is a hit, out of range or a
  mismatch (`Table.disposal`). A summary counts these, probe after probe (`summarize_eq_ok`).
Imports: KeywordHash.Proofs.Outcome, KeywordHash.Proofs.Table.Consistent, KeywordHash.Table.Probe
Trusted boundary: none
Main exports: Table.found?, Table.disposal, Table.Consistent.lookup_eq_found?,
  Table.Consistent.dispose_eq_ok, Table.Consistent.falsePositives_eq_ok,
  Table.Consistent.summarize_eq_ok
Open obligations: none
-/
import KeywordHash.Proofs.Outcome
import KeywordHash.Proofs.Table.Consistent
import KeywordHash.Table.Probe

namespace KeywordHash.Table

variable {table : Table}

/-- The keyword that a look-up finds if the hash of the word can be taken. -/
def found? (table : Table) (word : String) : Option Keyword :=
  if table.hasLength word.utf8ByteSize ∧ table.hashSum (Text.bytes word) ≤ table.maxHash then
    (table.slotKeyword? (table.hashSum (Text.bytes word))).filter (·.text = word)
  else
    none

/-- What becomes of a probe if its hash can be taken. -/
def disposal (table : Table) (probe : String) : Disposal :=
  if (table.found? probe).isSome then
    .hit
  else if table.hasLength probe.utf8ByteSize ∧ table.hashSum (Text.bytes probe) ≤ table.maxHash then
    .mismatch
  else
    .outOfRange

/-- What is found has the text of the word. -/
theorem text_of_found? {word : String} {keyword : Keyword} (h : table.found? word = some keyword) :
    keyword.text = word := by
  rw [found?] at h
  split at h
  · exact of_decide_eq_true (Option.filter_eq_some_iff.1 h).2
  · cases h

/-- Nothing is found past the last slot. -/
theorem found?_of_gt {word : String} (past : table.maxHash < table.hashSum (Text.bytes word)) :
    table.found? word = none :=
  if_neg fun inside => Nat.not_le.2 past inside.2

namespace Consistent

variable (consistent : table.Consistent)

include consistent

theorem lookup_eq_found? {word : String} (sum_lt : table.hashSum (Text.bytes word) < wordLimit) :
    table.lookup word = .ok (table.found? word) :=
  consistent.lookup_eq_ok sum_lt

/-- A probe is a hit, out of range or a mismatch. -/
theorem dispose_eq_ok {probe : String} (sum_lt : table.hashSum (Text.bytes probe) < wordLimit) :
    table.dispose probe = .ok (table.disposal probe) := by
  rw [dispose, hash_eq_ok sum_lt, ok_bind, consistent.lookup_eq_found? sum_lt, ok_bind, disposal]
  cases hFound : table.found? probe with
  | some keyword => exact congrArg Except.ok (if_pos (text_of_found? hFound))
  | none =>
      cases hLength : table.hasLength probe.utf8ByteSize with
      | false => rfl
      | true =>
          rcases Nat.lt_or_ge table.maxHash (table.hashSum (Text.bytes probe)) with past | inside
          · simp [past, pure, Except.pure]
          · simp [inside, Nat.not_lt.2 inside, pure, Except.pure]

variable {probes : List String}
  (sum_lt : ∀ probe ∈ probes, table.hashSum (Text.bytes probe) < wordLimit)

include sum_lt

/-- As the text of a keyword is compared last, no probe is a false positive. -/
theorem falsePositives_eq_ok : table.falsePositives probes = .ok [] := by
  apply filterMapM_eq_nil
  intro probe hProbe
  rw [consistent.lookup_eq_found? (sum_lt probe hProbe), ok_bind]
  cases hFound : table.found? probe with
  | some keyword => exact congrArg Except.ok (if_pos (text_of_found? hFound))
  | none => rfl

/-- Probes are summarized one after the other. -/
theorem summarize_eq_ok : table.summarize probes = .ok
    (probes.foldl (fun summary probe => summary.merge (.ofDisposal (table.disposal probe))) {}) := by
  apply foldlM_eq_ok
  intro probe hProbe summary
  rw [consistent.dispose_eq_ok (sum_lt probe hProbe)]
  rfl

end Consistent

end KeywordHash.Table
