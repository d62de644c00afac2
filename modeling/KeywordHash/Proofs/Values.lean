/-
Module: KeywordHash.Proofs.Values
Layer: Proofs
Purpose: What raising and retiring do to the value of each byte, so that later proofs read values
  through `get` only and never look at the cells. Values that are neither negative nor past a bound
  (`AtMost`) stay so while there is room below it; the bound is the greatest value of a character for
  every search (`InRange`), and the number of adjustments that were made.
Imports: KeywordHash.Values
Trusted boundary: none
Main exports: AssociatedValues.exists_get_eq, AssociatedValues.exists_bump, AssociatedValues.get_bump,
  AssociatedValues.get_retire, AssociatedValues.AtMost, AssociatedValues.AtMost.bump,
  AssociatedValues.InRange, AssociatedValues.inRange_constant, AssociatedValues.inRange_bump
Open obligations: none
-/
import KeywordHash.Values

namespace KeywordHash.AssociatedValues

/-- Bytes past ASCII read as unused. -/
theorem get_of_le (values : AssociatedValues) {c : UInt8} (past : asciiCount ≤ c.toNat) :
    values.get c = unused := by
  rw [get, Vector.getElem?_eq_none past]
  rfl

/-- The value of an ASCII character is its cell. -/
theorem get_of_lt (values : AssociatedValues) {c : UInt8} (ascii : c.toNat < asciiCount) :
    values.get c = values.cells[c.toNat] := by
  rw [get, Vector.getElem?_eq_getElem ascii]
  rfl

/-- What is in a cell is the value of a character. -/
theorem exists_get_eq {values : AssociatedValues} {value : Int} (h : value ∈ values.cells) :
    ∃ c, values.get c = value := by
  obtain ⟨c, c_lt, rfl⟩ := Vector.getElem_of_mem h
  have toNat_eq : (UInt8.ofNat c).toNat = c :=
    UInt8.toNat_ofNat_of_lt' (Nat.lt_trans c_lt (by decide))
  refine ⟨UInt8.ofNat c, ?_⟩
  rw [get_of_lt _ (by rwa [toNat_eq])]
  simp only [toNat_eq]

/-- All values are the same at first. -/
theorem get_constant (value : Int) {c : UInt8} (ascii : c.toNat < asciiCount) :
    (constant value).get c = value := by
  rw [get_of_lt _ ascii]
  exact Vector.getElem_replicate ascii

/-- A character whose value can be raised is ASCII and has room above its value. -/
theorem of_bump_eq_ok {values bumped : AssociatedValues} {c : UInt8}
    (h : values.bump c = .ok bumped) : c.toNat < asciiCount ∧ values.get c < maxValue := by
  rw [bump] at h
  split at h
  · next ascii =>
      split at h
      · next room => exact ⟨ascii, by rwa [get_of_lt values ascii]⟩
      · cases h
  · cases h

/-- The value of an ASCII character can be raised as long as there is room above it. -/
theorem exists_bump {values : AssociatedValues} {c : UInt8} (ascii : c.toNat < asciiCount)
    (room : values.get c < maxValue) : ∃ bumped, values.bump c = .ok bumped := by
  rw [get_of_lt values ascii] at room
  rw [bump, dif_pos ascii]
  exact ⟨_, if_pos room⟩

/-- Raising a character changes the value of no other. -/
theorem get_bump {values bumped : AssociatedValues} {c : UInt8} (h : values.bump c = .ok bumped)
    (d : UInt8) : bumped.get d = if d = c then values.get c + 1 else values.get d := by
  have ascii := (of_bump_eq_ok h).1
  rw [bump, dif_pos ascii] at h
  split at h
  · cases h
    by_cases same : d = c
    · subst same
      rw [if_pos rfl, get_of_lt _ ascii, get_of_lt _ ascii]
      exact Vector.getElem_set_self ascii
    · have codes_ne : c.toNat ≠ d.toNat := fun codes => same (UInt8.toNat_inj.1 codes.symm)
      rw [if_neg same, get, get, Vector.getElem?_set_ne ascii codes_ne]
  · cases h

/-- Retiring keeps the values of the characters that are kept, and makes the others unused. -/
theorem get_retire (values : AssociatedValues) (kept : UInt8 → Bool) (c : UInt8) :
    (values.retire kept).get c = if kept c then values.get c else unused := by
  rcases Nat.lt_or_ge c.toNat asciiCount with ascii | past
  · rw [get_of_lt _ ascii, get_of_lt _ ascii, retire, Vector.getElem_mapFinIdx,
      UInt8.ofNat_toNat]
  · rw [get_of_le _ past, get_of_le _ past]
    split <;> rfl

/-- Every ASCII character has a value that is neither negative nor past the given one. -/
def AtMost (values : AssociatedValues) (greatest : Int) : Prop :=
  ∀ c : UInt8, c.toNat < asciiCount → 0 ≤ values.get c ∧ values.get c ≤ greatest

/-- At first all values are zero. -/
theorem atMost_constant {greatest : Int} (nonneg : 0 ≤ greatest) : AtMost (constant 0) greatest := by
  intro c ascii
  rw [get_constant 0 ascii]
  exact ⟨Int.le_refl 0, nonneg⟩

theorem AtMost.mono {values : AssociatedValues} {greatest greater : Int}
    (atMost : values.AtMost greatest) (h : greatest ≤ greater) : values.AtMost greater :=
  fun c ascii => ⟨(atMost c ascii).1, Int.le_trans (atMost c ascii).2 h⟩

/-- Raising a value that is less than the given one leads past it nowhere. -/
theorem AtMost.bump {values bumped : AssociatedValues} {c : UInt8} {greatest : Int}
    (atMost : values.AtMost greatest) (room : values.get c < greatest)
    (h : values.bump c = .ok bumped) : bumped.AtMost greatest := by
  intro d ascii
  rw [get_bump h]
  split
  · have nonneg := (atMost c (of_bump_eq_ok h).1).1
    exact ⟨Int.le_add_one nonneg, room⟩
  · exact atMost d ascii

/-- The values that a search can have: every ASCII character has a value that is neither negative nor
    past the greatest one. -/
def InRange (values : AssociatedValues) : Prop :=
  values.AtMost maxValue

/-- A search begins in range. -/
theorem inRange_constant : InRange (constant 0) :=
  atMost_constant (by decide)

/-- Raising a value leads out of the range neither below nor above. -/
theorem inRange_bump {values bumped : AssociatedValues} {c : UInt8} (inRange : values.InRange)
    (h : values.bump c = .ok bumped) : bumped.InRange :=
  inRange.bump (of_bump_eq_ok h).2 h

end KeywordHash.AssociatedValues
