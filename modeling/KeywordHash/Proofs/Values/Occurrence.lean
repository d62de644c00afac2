/-
Module: KeywordHash.Proofs.Values.Occurrence
Layer: Proofs
Purpose: Counters hold how often each character stands in the samples (`get_ofSamples`). Counting
  succeeds on ASCII only, so all sampled characters have a counter and a value; it does succeed there
  unless there are more characters than a counter can tell (`exists_ofSamples`).
Imports: KeywordHash.Values.Occurrence, Mathlib.Algebra.Ring.Nat
Trusted boundary: none
Main exports: Occurrence.exists_ofSamples, Occurrence.get_ofSamples, Occurrence.isSampled_iff,
  Occurrence.ascii_of_ofSamples
Open obligations: none
-/
import KeywordHash.Values.Occurrence
import Mathlib.Algebra.Ring.Nat

namespace KeywordHash.Occurrence

/-- No character was counted at first. -/
theorem get_zero (c : UInt8) : zero.get c = 0 := by
  rw [get, zero, Vector.getElem?_replicate]
  split <;> rfl

/-- Only ASCII characters are counted. -/
theorem ascii_of_add {occurrence after : Occurrence} {c : UInt8} (h : occurrence.add c = .ok after) :
    c.toNat < asciiCount := by
  rw [add] at h
  split at h
  · assumption
  · cases h

/-- Counting a character raises its counter by one and no other. -/
theorem get_add {occurrence after : Occurrence} {c : UInt8} (h : occurrence.add c = .ok after)
    (d : UInt8) : after.get d = occurrence.get d + if d = c then 1 else 0 := by
  have ascii := ascii_of_add h
  rw [add, dif_pos ascii] at h
  simp only at h
  split at h
  · cases h
    by_cases same : d = c
    · subst same
      rw [if_pos rfl, get, get, Vector.getElem?_set_self ascii, Vector.getElem?_eq_getElem ascii]
      rfl
    · have codes_ne : c.toNat ≠ d.toNat := fun codes => same (UInt8.toNat_inj.1 codes.symm)
      rw [if_neg same, get, get, Vector.getElem?_set_ne ascii codes_ne, Nat.add_zero]
  · cases h

/-- An ASCII character can be counted as long as the counter has room. -/
theorem exists_add {occurrence : Occurrence} {c : UInt8} (ascii : c.toNat < asciiCount)
    (room : occurrence.get c + 1 < counterLimit) : ∃ after, occurrence.add c = .ok after := by
  have count_eq : occurrence.get c = occurrence.counts[c.toNat] := by
    rw [get, Vector.getElem?_eq_getElem ascii]
    rfl
  rw [count_eq] at room
  rw [add, dif_pos ascii]
  exact ⟨_, if_pos room⟩

/-- Counting a list of characters. The induction is on the characters, from any counters. -/
theorem get_foldlM_add {characters : List UInt8} {occurrence after : Occurrence}
    (h : characters.foldlM add occurrence = .ok after) :
    (∀ c ∈ characters, c.toNat < asciiCount)
      ∧ ∀ d, after.get d = occurrence.get d + characters.count d := by
  induction characters generalizing occurrence with
  | nil =>
      cases h
      simp
  | cons c rest ih =>
      rw [List.foldlM_cons] at h
      cases hAdd : occurrence.add c with
      | error fault =>
          rw [hAdd] at h
          cases h
      | ok counted =>
          rw [hAdd] at h
          obtain ⟨ascii, counts⟩ := ih h
          constructor
          · exact List.forall_mem_cons.2 ⟨ascii_of_add hAdd, ascii⟩
          · intro d
            rw [counts d, get_add hAdd d, List.count_cons, Nat.add_assoc,
              Nat.add_comm (List.count d rest)]
            simp only [beq_iff_eq, @eq_comm _ d c]

/-- ASCII characters can be counted as long as each counter has room for its character. The induction is
    on the characters, and what is taken from the list goes into the counters. -/
theorem exists_foldlM_add {characters : List UInt8} {occurrence : Occurrence}
    (ascii : ∀ c ∈ characters, c.toNat < asciiCount)
    (room : ∀ c, occurrence.get c + characters.count c < counterLimit) :
    ∃ after, characters.foldlM add occurrence = .ok after := by
  induction characters generalizing occurrence with
  | nil => exact ⟨occurrence, rfl⟩
  | cons c rest ih =>
      rw [List.forall_mem_cons] at ascii
      have room_c : occurrence.get c + 1 < counterLimit := by
        have := room c
        rw [List.count_cons_self] at this
        omega
      obtain ⟨counted, hAdd⟩ := exists_add ascii.1 room_c
      have room_rest : ∀ d, counted.get d + rest.count d < counterLimit := by
        intro d
        have := room d
        simp only [List.count_cons, beq_iff_eq, @eq_comm _ c d] at this
        rw [get_add hAdd d]
        omega
      rw [List.foldlM_cons, hAdd]
      exact ih ascii.2 room_rest

variable {samples : List Sample} {occurrence : Occurrence}

/-- Samples of ASCII characters can be counted if they have fewer of them than a counter can tell. -/
theorem exists_ofSamples (ascii : ∀ sample ∈ samples, ∀ c ∈ sample.characters, c.toNat < asciiCount)
    (total_lt : (samples.map (·.characters.length)).sum < counterLimit) :
    ∃ occurrence, ofSamples samples = .ok occurrence := by
  apply exists_foldlM_add
  · intro c hc
    obtain ⟨sample, hSample, hc⟩ := List.mem_flatMap.1 hc
    exact ascii sample hSample c hc
  · intro c
    have count_le : (samples.flatMap (·.characters)).count c ≤ (samples.flatMap (·.characters)).length :=
      List.count_le_length
    rw [List.length_flatMap] at count_le
    rw [get_zero]
    omega

/-- The counter of a character holds how often it stands in the samples. -/
theorem get_ofSamples (h : ofSamples samples = .ok occurrence) (c : UInt8) :
    occurrence.get c = (samples.flatMap (·.characters)).count c := by
  rw [(get_foldlM_add h).2 c, get_zero, Nat.zero_add]

/-- All sampled characters are ASCII. -/
theorem ascii_of_ofSamples (h : ofSamples samples = .ok occurrence) {sample : Sample}
    (hSample : sample ∈ samples) {c : UInt8} (hc : c ∈ sample.characters) : c.toNat < asciiCount :=
  (get_foldlM_add h).1 c (List.mem_flatMap.2 ⟨sample, hSample, hc⟩)

/-- The characters with a counter above zero are those in the samples. -/
theorem isSampled_iff (h : ofSamples samples = .ok occurrence) {c : UInt8} :
    occurrence.isSampled c ↔ ∃ sample ∈ samples, c ∈ sample.characters := by
  rw [isSampled, decide_eq_true_iff, get_ofSamples h c, Ne, List.count_eq_zero,
    Classical.not_not, List.mem_flatMap]

end KeywordHash.Occurrence
