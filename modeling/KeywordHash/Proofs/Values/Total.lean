/-
Module: KeywordHash.Proofs.Values.Total
Layer: Proofs
Purpose: The sum of all values. Raising a character adds one to it, and no value exceeds it as long as
  none is negative. The values that are in use have the same sum after characters of the value zero were
  retired.
Imports: KeywordHash.Proofs.Values, Mathlib.Algebra.BigOperators.Group.List.Basic,
  Mathlib.Algebra.Order.BigOperators.Group.List, Mathlib.Algebra.Order.Group.Int,
  Mathlib.Algebra.Ring.Int.Defs
Trusted boundary: none
Main exports: AssociatedValues.total, AssociatedValues.usedTotal, AssociatedValues.toList_cells,
  AssociatedValues.total_bump, AssociatedValues.get_le_total, AssociatedValues.usedTotal_retire
Open obligations: none
-/
import KeywordHash.Proofs.Values
import Mathlib.Algebra.BigOperators.Group.List.Basic
import Mathlib.Algebra.Order.BigOperators.Group.List
import Mathlib.Algebra.Order.Group.Int
import Mathlib.Algebra.Ring.Int.Defs

namespace KeywordHash.AssociatedValues

/-- The values of all characters, added up. -/
def total (values : AssociatedValues) : Int :=
  values.cells.toList.sum

/-- The values of all characters that are in use, added up. -/
def usedTotal (values : AssociatedValues) : Int :=
  (values.cells.toList.filter (· ≠ unused)).sum

/-- The codes that are below the number of ASCII characters are those of ASCII characters. -/
theorem ascii_ofNat {c : Nat} (hc : c ∈ List.range asciiCount) : (UInt8.ofNat c).toNat < asciiCount := by
  have c_lt := List.mem_range.1 hc
  rwa [UInt8.toNat_ofNat_of_lt' (Nat.lt_trans c_lt (by decide))]

/-- The cells hold the values of the characters in the order of their codes. -/
theorem toList_cells (values : AssociatedValues) :
    values.cells.toList = (List.range asciiCount).map fun c => values.get (UInt8.ofNat c) := by
  apply List.ext_getElem
  · simp
  · intro c inside _
    have c_lt : c < asciiCount := by simpa using inside
    have toNat_eq : (UInt8.ofNat c).toNat = c :=
      UInt8.toNat_ofNat_of_lt' (Nat.lt_trans c_lt (by decide))
    rw [List.getElem_map, List.getElem_range, get_of_lt _ (ascii_ofNat (List.mem_range.2 c_lt)),
      Vector.getElem_toList]
    simp only [toNat_eq]

/-- At first the values add up to zero. -/
theorem total_constant_zero : (constant 0).total = 0 := by
  simp [total, constant]

/-- Raising a character adds one to all values together. -/
theorem total_bump {values bumped : AssociatedValues} {c : UInt8} (h : values.bump c = .ok bumped) :
    bumped.total = values.total + 1 := by
  have ascii := (of_bump_eq_ok h).1
  rw [bump, dif_pos ascii] at h
  split at h
  · cases h
    have inside : c.toNat < values.cells.toList.length := by rwa [Vector.length_toList]
    rw [total, Vector.toList_set, List.sum_set', dif_pos inside, Vector.getElem_toList, total]
    omega
  · cases h

section

variable {values : AssociatedValues}
  (nonneg : ∀ c : UInt8, c.toNat < asciiCount → 0 ≤ values.get c)

include nonneg

/-- No value exceeds the sum of all, if none is negative. -/
theorem get_le_total {c : UInt8} (ascii : c.toNat < asciiCount) : values.get c ≤ values.total := by
  have cells_nonneg : ∀ value ∈ values.cells.toList, 0 ≤ value := by
    rw [toList_cells, List.forall_mem_map]
    exact fun d hd => nonneg _ (ascii_ofNat hd)
  have mem_cells : values.get c ∈ values.cells.toList := by
    rw [get_of_lt _ ascii, Vector.mem_toList_iff]
    exact Vector.getElem_mem ascii
  exact List.single_le_sum cells_nonneg _ mem_cells

/-- Retiring characters of the value zero does not change the sum of the values in use: what is kept is in
    use, and what is not would add nothing. -/
theorem usedTotal_retire {kept : UInt8 → Bool}
    (zero : ∀ c : UInt8, c.toNat < asciiCount → ¬ kept c → values.get c = 0) :
    (values.retire kept).usedTotal = values.total := by
  have sum_used : ∀ list : List Int,
      (list.filter (· ≠ unused)).sum = (list.map fun v => if v ≠ unused then v else 0).sum := by
    intro list
    simpa using (List.sum_map_ite (· ≠ unused) id (fun _ => (0 : Int)) list).symm
  rw [usedTotal, total, sum_used, toList_cells, toList_cells, List.map_map]
  congr 1
  apply List.map_congr_left
  intro c hc
  have ascii := ascii_ofNat hc
  rw [Function.comp_apply, get_retire]
  by_cases isKept : kept (UInt8.ofNat c)
  · have used : values.get (UInt8.ofNat c) ≠ unused := by
      have := nonneg _ ascii
      rw [unused]
      omega
    rw [if_pos isKept, if_pos used]
  · rw [if_neg isKept, zero _ ascii isKept]
    rfl

end

end KeywordHash.AssociatedValues
