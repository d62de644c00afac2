/-
Module: KeywordHash.Proofs.Table.Loaded
Layer: Proofs
Purpose: The numbers of a table that comes from a document are those of the machine
  (`Table.fitsMachine_of_load`), since each of them was read for the type that it is kept in. With the
  range of values in a search this bounds the values of every table that can be had
  (`Table.Obtained.value_le`).
Imports: KeywordHash.Proofs.Json.Ensures, KeywordHash.Proofs.Table.Document
Trusted boundary: none
Main exports: Document.FitsMachine, Document.fitsMachine_of_read, Table.fitsMachine_of_load,
  Table.Obtained.value_le
Open obligations: none
-/
import KeywordHash.Proofs.Json.Ensures
import KeywordHash.Proofs.Table.Document

namespace KeywordHash

namespace Document

open Json

/-- Every number of the document is one of the machine type that it is read for. -/
structure FitsMachine (document : Document) : Prop where
  line_lt : ∀ keyword ∈ document.keywords, keyword.line < wordLimit
  offset_lt : ∀ offset ∈ document.offsets, offset < wordLimit
  value_range : ∀ value ∈ document.values, -2 ^ 31 ≤ value ∧ value < 2 ^ 31
  index_lt : ∀ slot ∈ document.slots, ∀ index, slot = some index → index < wordLimit
  minWordLength_lt : document.minWordLength < wordLimit
  maxWordLength_lt : document.maxWordLength < wordLimit
  signaturesTried_lt : document.signaturesTried < wordLimit
  adjustments_lt : document.adjustments < wordLimit

/-- What is read behind a key for the first time is stored, and what the reader ensures is stored with
    it. -/
theorem ensures_keep {α σ : Type} {former : Option α} {item : Reader α} {store : α → σ}
    {property : α → Prop} {invariant : σ → Prop} (ensures : Ensures item property)
    (stores : ∀ a, property a → invariant (store a)) :
    Ensures (keep former item store) invariant := by
  intro s state rest h
  obtain ⟨⟨a, behind⟩, hItem, h⟩ := exists_of_bind_eq_ok h
  cases h
  exact stores a (ensures_once ensures former _ _ _ hItem)

/-- A member that is passed over changes nothing. -/
theorem ensures_passed {σ : Type} {state : σ} {invariant : σ → Prop} (holds : invariant state) :
    Ensures (fun s => do return (state, ← passMember s)) invariant := by
  intro s after rest h
  obtain ⟨behind, _, h⟩ := exists_of_bind_eq_ok h
  cases h
  exact holds

/-! ### Keywords -/

theorem ensures_keywordMember {key : String} {read : KeywordMembers}
    (before : ∀ line, read.line = some line → line < wordLimit) :
    Ensures (keywordMember key read) (fun after => ∀ line, after.line = some line → line < wordLimit) := by
  rw [keywordMember.eq_def]
  split
  · exact ensures_keep (ensures_true _) fun _ _ => before
  · exact ensures_keep (ensures_true _) fun _ _ => before
  · refine ensures_keep ensures_natural fun line line_lt other same => ?_
    cases same
    exact line_lt
  · exact ensures_passed before

theorem ensures_keywordObject (limit : Nat) :
    Ensures (keywordObject limit) (fun keyword => keyword.line < wordLimit) := by
  intro s keyword rest h
  obtain ⟨⟨read, behind⟩, hMembers, h⟩ := exists_of_bind_eq_ok h
  have line_lt := ensures_members (fun _ _ before => ensures_keywordMember before) limit
    (fun line h => by cases h) _ _ _ hMembers
  dsimp only at h
  split at h
  · cases h
    exact line_lt _ rfl
  · cases h

theorem ensures_keywordFields : Ensures keywordFields (fun keyword => keyword.line < wordLimit) := by
  intro s keyword rest h
  obtain ⟨⟨text, s⟩, _, h⟩ := exists_of_bind_eq_ok h
  obtain ⟨⟨payload, s⟩, _, h⟩ := exists_of_bind_eq_ok h
  obtain ⟨⟨line, s⟩, hLine, h⟩ := exists_of_bind_eq_ok h
  cases h
  exact ensures_element ensures_natural false _ _ _ hLine

/-! ### Lists -/

theorem ensures_keywordList (limit : Nat) :
    Ensures (keywordList limit) (fun list => ∀ keyword ∈ list, keyword.line < wordLimit) :=
  ensures_array (ensures_elements
    (ensures_record (ensures_keywordObject limit) ensures_keywordFields) limit)

theorem ensures_offsetList (limit : Nat) :
    Ensures (offsetList limit) (fun list => ∀ offset ∈ list, offset < wordLimit) :=
  ensures_array (ensures_elements ensures_natural limit)

theorem ensures_valueList :
    Ensures valueList (fun list => ∀ value ∈ list, -2 ^ 31 ≤ value ∧ value < 2 ^ 31) :=
  ensures_array (ensures_exactly ensures_integer asciiCount true)

theorem ensures_slotList (limit : Nat) :
    Ensures (slotList limit)
      (fun list => ∀ slot ∈ list, ∀ index, slot = some index → index < wordLimit) :=
  ensures_array (ensures_elements (ensures_optional ensures_natural) limit)

/-! ### Tables -/

/-- Every number of the members that were read so far is one of the machine type that it is read for. -/
structure Members.FitMachine (read : Members) : Prop where
  line_lt : ∀ list, read.keywords = some list → ∀ keyword ∈ list, keyword.line < wordLimit
  offset_lt : ∀ list, read.offsets = some list → ∀ offset ∈ list, offset < wordLimit
  value_range : ∀ list, read.values = some list → ∀ value ∈ list, -2 ^ 31 ≤ value ∧ value < 2 ^ 31
  index_lt : ∀ list, read.slots = some list →
    ∀ slot ∈ list, ∀ index, slot = some index → index < wordLimit
  minWordLength_lt : ∀ n, read.minWordLength = some n → n < wordLimit
  maxWordLength_lt : ∀ n, read.maxWordLength = some n → n < wordLimit
  signaturesTried_lt : ∀ n, read.signaturesTried = some n → n < wordLimit
  adjustments_lt : ∀ n, read.adjustments = some n → n < wordLimit

theorem fitMachine_start : Members.FitMachine {} := by
  constructor <;> (intro _ h; cases h)

/-- Each member that is read keeps all that was read in bounds. -/
theorem ensures_tableMember (limit : Nat) {key : String} {read : Members} (fit : read.FitMachine) :
    Ensures (tableMember limit key read) Members.FitMachine := by
  rw [tableMember.eq_def]
  split
  · exact ensures_keep (ensures_keywordList limit) fun list h =>
      { fit with line_lt := by rintro _ ⟨⟩; exact h }
  · exact ensures_keep (ensures_offsetList limit) fun list h =>
      { fit with offset_lt := by rintro _ ⟨⟩; exact h }
  · exact ensures_keep ensures_valueList fun list h =>
      { fit with value_range := by rintro _ ⟨⟩; exact h }
  · exact ensures_keep (ensures_slotList limit) fun list h =>
      { fit with index_lt := by rintro _ ⟨⟩; exact h }
  · exact ensures_keep ensures_natural fun n h =>
      { fit with minWordLength_lt := by rintro _ ⟨⟩; exact h }
  · exact ensures_keep ensures_natural fun n h =>
      { fit with maxWordLength_lt := by rintro _ ⟨⟩; exact h }
  · exact ensures_keep ensures_natural fun n h =>
      { fit with signaturesTried_lt := by rintro _ ⟨⟩; exact h }
  · exact ensures_keep ensures_natural fun n h =>
      { fit with adjustments_lt := by rintro _ ⟨⟩; exact h }
  · exact ensures_passed fit

theorem ensures_tableObject (limit : Nat) : Ensures (tableObject limit) FitsMachine := by
  intro s document rest h
  obtain ⟨⟨read, behind⟩, hMembers, h⟩ := exists_of_bind_eq_ok h
  have fit := ensures_members (fun _ _ before => ensures_tableMember limit before) limit
    fitMachine_start _ _ _ hMembers
  dsimp only at h
  split at h
  · next hDocument =>
      cases h
      simp only [ofMembers?, Option.bind_eq_bind, Option.bind_eq_some_iff] at hDocument
      obtain ⟨keywords, hKeywords, offsets, hOffsets, values, hValues, slots, hSlots, least, hLeast,
        greatest, hGreatest, tried, hTried, adjustments, hAdjustments, hDocument⟩ := hDocument
      cases hDocument
      exact
        { line_lt := fit.line_lt keywords hKeywords
          offset_lt := fit.offset_lt offsets hOffsets
          value_range := fit.value_range values hValues
          index_lt := fit.index_lt slots hSlots
          minWordLength_lt := fit.minWordLength_lt least hLeast
          maxWordLength_lt := fit.maxWordLength_lt greatest hGreatest
          signaturesTried_lt := fit.signaturesTried_lt tried hTried
          adjustments_lt := fit.adjustments_lt adjustments hAdjustments }
  · cases h

theorem ensures_tableFields (limit : Nat) : Ensures (tableFields limit) FitsMachine := by
  intro s document rest h
  obtain ⟨⟨keywords, s⟩, hKeywords, h⟩ := exists_of_bind_eq_ok h
  obtain ⟨⟨offsets, s⟩, hOffsets, h⟩ := exists_of_bind_eq_ok h
  obtain ⟨⟨values, s⟩, hValues, h⟩ := exists_of_bind_eq_ok h
  obtain ⟨⟨slots, s⟩, hSlots, h⟩ := exists_of_bind_eq_ok h
  obtain ⟨⟨least, s⟩, hLeast, h⟩ := exists_of_bind_eq_ok h
  obtain ⟨⟨greatest, s⟩, hGreatest, h⟩ := exists_of_bind_eq_ok h
  obtain ⟨⟨tried, s⟩, hTried, h⟩ := exists_of_bind_eq_ok h
  obtain ⟨⟨adjustments, s⟩, hAdjustments, h⟩ := exists_of_bind_eq_ok h
  cases h
  exact
    { line_lt := ensures_element (ensures_keywordList limit) true _ _ _ hKeywords
      offset_lt := ensures_element (ensures_offsetList limit) false _ _ _ hOffsets
      value_range := ensures_element ensures_valueList false _ _ _ hValues
      index_lt := ensures_element (ensures_slotList limit) false _ _ _ hSlots
      minWordLength_lt := ensures_element ensures_natural false _ _ _ hLeast
      maxWordLength_lt := ensures_element ensures_natural false _ _ _ hGreatest
      signaturesTried_lt := ensures_element ensures_natural false _ _ _ hTried
      adjustments_lt := ensures_element ensures_natural false _ _ _ hAdjustments }

/-- Whatever document is read has machine numbers only. -/
theorem fitsMachine_of_read {bytes : List UInt8} {document : Document} (h : read bytes = .ok document) :
    document.FitsMachine := by
  obtain ⟨⟨fields, behind⟩, hRecord, h⟩ := exists_of_bind_eq_ok h
  dsimp only at h
  split at h
  · cases h
    exact ensures_record (ensures_tableObject _) (ensures_tableFields _) _ _ _ hRecord
  · cases h

/-- The table of a document has the numbers of the document. -/
theorem FitsMachine.toTable {document : Document} (fits : document.FitsMachine) {table : Table}
    (h : document.toTable = .ok table) : table.FitsMachine := by
  rw [Document.toTable] at h
  split at h
  · cases h
  · next signature hSignature =>
      rw [Signature.ofOffsets?] at hSignature
      split at hSignature
      · cases hSignature
        split at h
        · cases h
        · cases h
          exact
            { line_lt := fits.line_lt
              offset_lt := fits.offset_lt
              value_range := by
                intro value hValue
                obtain ⟨c, c_lt, rfl⟩ := Vector.getElem_of_mem hValue
                rw [AssociatedValues.ofList, Vector.getElem_ofFn]
                cases hCell : document.values[c]? with
                | none => exact ⟨by decide, by decide⟩
                | some value => exact fits.value_range value (List.mem_of_getElem? hCell)
              index_lt := fun index hIndex =>
                fits.index_lt (some index) (List.mem_toArray.1 hIndex) index rfl
              minWordLength_lt := fits.minWordLength_lt
              maxWordLength_lt := fits.maxWordLength_lt
              signaturesTried_lt := fits.signaturesTried_lt
              adjustments_lt := fits.adjustments_lt }
      · cases hSignature

end Document

namespace Table

variable {table : Table}

/-- Every number of a table that is loaded is one of the machine type that it is kept in. -/
theorem fitsMachine_of_load {bytes : List UInt8} (h : load bytes = .ok table) : table.FitsMachine := by
  obtain ⟨document, hRead, hTable⟩ := load_eq_ok h
  exact (Document.fitsMachine_of_read hRead).toTable hTable

/-- No value is greater than the greatest number of 32 bits with a sign. -/
theorem Obtained.value_le (obtained : table.Obtained) (c : UInt8) : table.values.get c ≤ maxValue := by
  cases obtained with
  | built keywords maxTries h =>
      obtain ⟨_, found, rfl, hAssign, _⟩ := build_eq_ok h
      exact (assigned_of_assign hAssign).value_le c
  | loaded bytes h =>
      rcases Nat.lt_or_ge c.toNat asciiCount with ascii | past
      · have inRange := (fitsMachine_of_load h).value_range table.values.cells[c.toNat]
          (Vector.getElem_mem ascii)
        rw [AssociatedValues.get_of_lt _ ascii, maxValue]
        omega
      · rw [AssociatedValues.get_of_le _ past]
        decide

end Table

end KeywordHash
