/-
Module: KeywordHash.Proofs.Values.Collision
Layer: Proofs
Purpose: Two samples that collide, and what raising a character does to them. A hash grows by as much as
  the raised character is sampled, so two samples are told apart by raising a character that one of them
  has more often (`Sample.hash_bump`). Samples that collide whatever the values are have the same length
  and the same characters as often (`Sample.hash_eq_iff_perm`). The collision that hashing reports is the
  first repetition among the hashes (`firstRepetition_of_hashAll`).
Imports: KeywordHash.Proofs.Record, KeywordHash.Proofs.Values, KeywordHash.Proofs.Values.Hashing,
  Mathlib.Algebra.Ring.Int.Defs
Trusted boundary: none
Main exports: Sample.hash_le, Sample.hash_bump, Sample.hash_eq_iff_perm, Colliding,
  firstRepetition_of_hashAll, colliding_of_hashAll, hashAll_outcome
Open obligations: none
-/
import KeywordHash.Proofs.Record
import KeywordHash.Proofs.Values
import KeywordHash.Proofs.Values.Hashing
import Mathlib.Algebra.Ring.Int.Defs

namespace KeywordHash

/-! ### Raised characters -/

namespace Sample

variable {sample first second : Sample}

/-- A hash is the length and the sum of the values, in whatever order they are added. -/
theorem hash_eq_sum (sample : Sample) (values : AssociatedValues) :
    sample.hash values = sample.length + (sample.characters.map values.get).sum := by
  rw [hash, ← List.sum_eq_foldr]

/-- If no value exceeds a bound, the hash exceeds the length by as many times the bound as there are
    characters, at most. -/
theorem hash_le {values : AssociatedValues} {bound : Int}
    (value_le : ∀ c ∈ sample.characters, values.get c ≤ bound) :
    sample.hash values ≤ sample.length + sample.characters.length * bound := by
  have sum_le := List.sum_le_card_nsmul (sample.characters.map values.get) bound
    (by simpa using value_le)
  rw [List.length_map, nsmul_eq_mul] at sum_le
  rw [hash_eq_sum]
  exact Int.add_le_add_left sum_le _

/-- Under values that are all zero the hash is the length. -/
theorem hash_constant_zero (ascii : ∀ c ∈ sample.characters, c.toNat < asciiCount) :
    sample.hash (.constant 0) = sample.length := by
  have zeros : sample.characters.map (AssociatedValues.constant 0).get
      = sample.characters.map fun _ => (0 : Int) :=
    List.map_congr_left fun c hc => AssociatedValues.get_constant 0 (ascii c hc)
  rw [hash_eq_sum, zeros, List.map_const', List.sum_replicate, nsmul_zero, add_zero]

/-- Raising a character adds to a hash how often the character was sampled. -/
theorem hash_bump {values bumped : AssociatedValues} {c : UInt8} (h : values.bump c = .ok bumped) :
    sample.hash bumped = sample.hash values + sample.characters.count c := by
  rw [hash_eq_sum, hash_eq_sum, add_assoc]
  congr 1
  induction sample.characters with
  | nil => rfl
  | cons d rest ih =>
      rw [List.map_cons, List.sum_cons, List.map_cons, List.sum_cons, ih,
        AssociatedValues.get_bump h, List.count_cons]
      by_cases same : d = c
      · subst same
        simp only [if_true, beq_self_eq_true]
        omega
      · simp only [if_neg same, beq_eq_false_iff_ne.2 same, Bool.false_eq_true, if_false]
        omega

/-- Samples of one length with the same characters as often have the same hash under all values. -/
theorem hash_eq_of_perm (length_eq : first.length = second.length)
    (perm : first.characters.Perm second.characters) (values : AssociatedValues) :
    first.hash values = second.hash values := by
  rw [hash_eq_sum, hash_eq_sum, length_eq, (perm.map values.get).sum_eq]

/-- The samples that no values can tell apart. Values that are all zero show the lengths, and raising one
    character shows how often this character was sampled. -/
theorem hash_eq_iff_perm (firstAscii : ∀ c ∈ first.characters, c.toNat < asciiCount)
    (secondAscii : ∀ c ∈ second.characters, c.toNat < asciiCount) :
    (∀ values : AssociatedValues, values.InRange → first.hash values = second.hash values)
      ↔ first.length = second.length ∧ first.characters.Perm second.characters := by
  constructor
  · intro equal
    have zero_eq := equal _ AssociatedValues.inRange_constant
    have length_eq : first.length = second.length := by
      rw [hash_constant_zero firstAscii, hash_constant_zero secondAscii] at zero_eq
      exact Int.ofNat_inj.1 zero_eq
    refine ⟨length_eq, List.perm_iff_count.2 fun c => ?_⟩
    rcases Nat.lt_or_ge c.toNat asciiCount with ascii | past
    · have room : (AssociatedValues.constant 0).get c < maxValue := by
        rw [AssociatedValues.get_constant 0 ascii]
        decide
      obtain ⟨bumped, hBump⟩ := AssociatedValues.exists_bump ascii room
      have bumped_eq :=
        equal bumped (AssociatedValues.inRange_bump AssociatedValues.inRange_constant hBump)
      rw [hash_bump hBump, hash_bump hBump, zero_eq] at bumped_eq
      exact Int.ofNat_inj.1 (add_left_cancel bumped_eq)
    · have absent : ∀ {characters : List UInt8},
          (∀ c ∈ characters, c.toNat < asciiCount) → characters.count c = 0 :=
        fun onlyAscii => List.count_eq_zero.2 fun hc => Nat.not_lt.2 past (onlyAscii c hc)
      rw [absent firstAscii, absent secondAscii]
  · rintro ⟨length_eq, perm⟩ values _
    exact hash_eq_of_perm length_eq perm values

end Sample

/-! ### Collisions -/

/-- Two samples of a list, the later of which has the hash of the earlier one. -/
structure Colliding (values : AssociatedValues) (samples : List Sample) (keyword owner : Nat)
    (later earlier : Sample) : Prop where
  owner_lt : owner < keyword
  later_eq : samples[keyword]? = some later
  earlier_eq : samples[owner]? = some earlier
  hash_eq : later.hash values = earlier.hash values

/-- A collision is reported at the first sample that has the hash of an earlier one. The induction is on the
    samples that are left; the table lists those before them, whose hashes are distinct. -/
theorem firstRepetition_of_hashFrom {values : AssociatedValues} {before rest : List Sample}
    {table : HashTable} {keyword owner : Nat} (lists : table.Lists values before)
    (h : hashFrom values before.length table rest = .ok (.collision keyword owner)) :
    FirstRepetition ((before ++ rest).map (·.hash values)) keyword owner := by
  induction rest generalizing before table with
  | nil => cases h
  | cons sample rest ih =>
      rw [hashFrom] at h
      split at h
      · cases h
      · next hash hHash =>
          split at h
          · next held hOwner =>
              cases h
              obtain ⟨earlier, hEarlier, hash_eq⟩ := (lists.owner_iff hash owner).1 hOwner
              have owned : (before.map (·.hash values))[owner]? = some (sample.hash values) := by
                simp [hEarlier, hash_eq, hHash]
              simpa using firstRepetition_append lists.nodup_hashes owned
          · next free =>
              have listsNext := lists.insert hHash free
              have length_eq : before.length + 1 = (before ++ [sample]).length := by simp
              rw [length_eq] at h
              simpa using ih listsNext h

section

variable {values : AssociatedValues} {samples : List Sample}

theorem firstRepetition_of_hashAll {keyword owner : Nat}
    (h : hashAll values samples = .ok (.collision keyword owner)) :
    FirstRepetition (samples.map (·.hash values)) keyword owner :=
  firstRepetition_of_hashFrom (HashTable.lists_nil values) h

/-- A collision that hashing reports is one of two samples. -/
theorem colliding_of_hashAll {keyword owner : Nat}
    (h : hashAll values samples = .ok (.collision keyword owner)) :
    ∃ later earlier, Colliding values samples keyword owner later earlier := by
  have first := firstRepetition_of_hashAll h
  have keyword_lt : keyword < samples.length := by simpa using first.index_lt
  have owner_lt : owner < samples.length := Nat.lt_trans first.lt keyword_lt
  have same := first.same
  simp only [List.getElem?_map, List.getElem?_eq_getElem, keyword_lt, owner_lt, Option.map_some,
    Option.some.injEq] at same
  exact ⟨samples[keyword], samples[owner], first.lt, List.getElem?_eq_getElem keyword_lt,
    List.getElem?_eq_getElem owner_lt, same.symm⟩

/-- Hashing tells whether the hashes are distinct, if none of them is negative: it ends with a table if they
    are, and otherwise with the first repetition. -/
theorem hashAll_outcome (nonneg : ∀ sample ∈ samples, 0 ≤ sample.hash values) :
    ((samples.map (·.hash values)).Nodup ∧ ∃ table, hashAll values samples = .ok (.distinct table))
      ∨ ∃ keyword owner, hashAll values samples = .ok (.collision keyword owner)
        ∧ FirstRepetition (samples.map (·.hash values)) keyword owner := by
  obtain ⟨hashing, h⟩ : ∃ hashing, hashAll values samples = .ok hashing := exists_hashFrom nonneg
  cases hashing with
  | distinct table => exact Or.inl ⟨(lists_of_hashAll h).nodup_hashes, table, h⟩
  | collision keyword owner => exact Or.inr ⟨keyword, owner, h, firstRepetition_of_hashAll h⟩

end

end KeywordHash
