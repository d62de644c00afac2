/-
Module: KeywordHash.Proofs.Table.Summary
Layer: Proofs
Purpose: Summaries of probes. Summaries are put together like numbers, so a list of probes may be cut into
  pieces and their summaries put together in any way (`Pieces.summarize_eq`). A summary counts every
  probe once, under what becomes of it in a look-up (`Obtained.summarize_probes`); after the checks on
  the table, the hits are the probes that are keywords.
Imports: KeywordHash.Proofs.Table.Probe, KeywordHash.Proofs.Table.Verification
Trusted boundary: none
Main exports: ProbeSummary.merge_assoc, ProbeSummary.tally, Table.summarize_append, Pieces,
  Pieces.summarize_eq, Table.Consistent.summarize_eq_tally, Table.Obtained.summarize_probes
Open obligations: none
-/
import KeywordHash.Proofs.Table.Probe
import KeywordHash.Proofs.Table.Verification

namespace KeywordHash

namespace ProbeSummary

theorem merge_assoc (a b c : ProbeSummary) : (a.merge b).merge c = a.merge (b.merge c) := by
  simp [merge, Nat.add_assoc]

@[simp]
theorem empty_merge (a : ProbeSummary) : merge {} a = a := by
  simp [merge]

/-- How often each end is in a list. -/
def tally (disposals : List Disposal) : ProbeSummary where
  probes := disposals.length
  hits := disposals.count .hit
  outOfRange := disposals.count .outOfRange
  mismatches := disposals.count .mismatch
  falsePositives := disposals.count .falsePositive

theorem tally_cons (disposal : Disposal) (rest : List Disposal) :
    tally (disposal :: rest) = (ofDisposal disposal).merge (tally rest) := by
  cases disposal <;> simp [tally, ofDisposal, merge, Nat.add_comm]

theorem hits_tally_map {α : Type} (disposal : α → Disposal) (list : List α) :
    (tally (list.map disposal)).hits = list.countP (disposal · = .hit) :=
  List.countP_map

theorem outOfRange_tally_map {α : Type} (disposal : α → Disposal) (list : List α) :
    (tally (list.map disposal)).outOfRange = list.countP (disposal · = .outOfRange) :=
  List.countP_map

/-- The ends of a list that are counted one after the other come to the tally. -/
theorem foldl_merge {α : Type} (disposal : α → Disposal) (start : ProbeSummary) (list : List α) :
    list.foldl (fun summary a => summary.merge (.ofDisposal (disposal a))) start
      = start.merge (tally (list.map disposal)) := by
  induction list generalizing start with
  | nil => rfl
  | cons a rest ih => rw [List.foldl_cons, ih, List.map_cons, tally_cons, merge_assoc]

/-- Every probe is counted once among the ends. -/
theorem sum_tally (disposals : List Disposal) :
    (tally disposals).hits + (tally disposals).outOfRange + (tally disposals).mismatches
      + (tally disposals).falsePositives = (tally disposals).probes := by
  induction disposals with
  | nil => rfl
  | cons disposal rest ih =>
      rw [tally_cons]
      cases disposal <;> simp only [ofDisposal, merge] <;> omega

end ProbeSummary

/-! ### Pieces -/

namespace Table

variable (table : Table)

/-- Counting on from a summary adds to it what the probes count by themselves. -/
theorem foldlM_summarize (start : ProbeSummary) (probes : List String) :
    probes.foldlM (fun summary probe => do
        let disposal ← table.dispose probe
        return summary.merge (.ofDisposal disposal)) start
      = (table.summarize probes).map start.merge := by
  induction probes generalizing start with
  | nil => rfl
  | cons probe rest ih =>
      rw [summarize, List.foldlM_cons, List.foldlM_cons]
      cases table.dispose probe with
      | error fault => rfl
      | ok disposal =>
          simp only [ok_bind, pure_bind, ih, ProbeSummary.empty_merge]
          cases table.summarize rest with
          | error fault => rfl
          | ok summary => exact congrArg Except.ok (ProbeSummary.merge_assoc _ _ _)

/-- The summary of a list is that of its two parts put together, also if it can not be made. -/
theorem summarize_append (probes more : List String) :
    table.summarize (probes ++ more) = do
      let first ← table.summarize probes
      let second ← table.summarize more
      return first.merge second := by
  rw [summarize, List.foldlM_append, ← summarize]
  cases table.summarize probes with
  | error fault => rfl
  | ok first =>
      rw [ok_bind, ok_bind, foldlM_summarize]
      cases table.summarize more <;> rfl

end Table

/-- A list of probes in pieces, each of which is counted by itself, and the order in which their summaries
    are put together. -/
inductive Pieces where
  | whole (probes : List String)
  | join (first second : Pieces)

namespace Pieces

/-- The probes of all pieces. -/
def probes : Pieces → List String
  | whole probes => probes
  | join first second => first.probes ++ second.probes

/-- The summary that is put together from those of the pieces. -/
def summarize (table : Table) : Pieces → Except Fault ProbeSummary
  | whole probes => table.summarize probes
  | join first second => do
      let firstSummary ← first.summarize table
      let secondSummary ← second.summarize table
      return firstSummary.merge secondSummary

/-- It makes no difference how a list is cut into pieces, and in which order they are put together. -/
theorem summarize_eq (table : Table) (pieces : Pieces) :
    pieces.summarize table = table.summarize pieces.probes := by
  induction pieces with
  | whole probes => rfl
  | join first second firstSame secondSame =>
      rw [summarize, firstSame, secondSame, probes, table.summarize_append]

end Pieces

/-! ### What is counted -/

namespace Table

variable {table : Table} {probe : String}

theorem disposal_ne_falsePositive : table.disposal probe ≠ .falsePositive := by
  rw [disposal]
  split
  · decide
  · split <;> decide

theorem disposal_eq_hit_iff : table.disposal probe = .hit ↔ (table.found? probe).isSome := by
  rw [disposal]
  split
  · simp [*]
  · split <;> simp [*]

theorem disposal_eq_outOfRange_iff : table.disposal probe = .outOfRange ↔
    table.found? probe = none
      ∧ (probe.utf8ByteSize < table.minWordLength ∨ table.maxWordLength < probe.utf8ByteSize
        ∨ table.maxHash < table.hashSum (Text.bytes probe)) := by
  have inside_iff : ¬ (table.hasLength probe.utf8ByteSize
        ∧ table.hashSum (Text.bytes probe) ≤ table.maxHash) ↔
      probe.utf8ByteSize < table.minWordLength ∨ table.maxWordLength < probe.utf8ByteSize
        ∨ table.maxHash < table.hashSum (Text.bytes probe) := by
    rw [hasLength_iff]
    omega
  rw [disposal, ← inside_iff]
  cases table.found? probe with
  | some keyword => simp
  | none => simp

namespace Consistent

variable (consistent : table.Consistent) {probes : List String}
  (sum_lt : ∀ probe ∈ probes, table.hashSum (Text.bytes probe) < wordLimit)

include consistent sum_lt

/-- A summary is the tally of what becomes of the probes. -/
theorem summarize_eq_tally :
    table.summarize probes = .ok (.tally (probes.map table.disposal)) := by
  rw [consistent.summarize_eq_ok sum_lt, ProbeSummary.foldl_merge, ProbeSummary.empty_merge]

end Consistent

/-- After the checks, what is found are the keywords. -/
theorem Consistent.isSome_found?_iff_of_verify (consistent : table.Consistent)
    (verified : table.verify = .ok ()) (sum_lt : table.hashSum (Text.bytes probe) < wordLimit) :
    (table.found? probe).isSome ↔ ∃ keyword ∈ table.keywords, keyword.text = probe := by
  obtain ⟨distinct, reachable⟩ :=
    (verify_eq_ok_iff_checks consistent.index_lt (hashSum_lt_of_verify verified)).2.1 verified
  have found_eq := lookup_eq_find?_of_found consistent.index_lt (texts_nodup_of_hashes distinct) reachable
    fun _ => sum_lt
  rw [consistent.lookup_eq_found? sum_lt] at found_eq
  injection found_eq with found_eq
  rw [found_eq, Keyword.find?, List.find?_isSome]
  simp

/-- In every table that a build or a document gives, and for all probes with a hash: the summary is the same
    in whatever pieces the probes are counted, and counts each probe once. No probe is a false positive. Out
    of range are the probes that are not found and whose length or hash is out of the range of the table.
    Hits are those that are found; after the checks, these are the keywords. -/
theorem Obtained.summarize_probes (obtained : table.Obtained) {probes : List String}
    (sum_lt : ∀ probe ∈ probes, table.hashSum (Text.bytes probe) < wordLimit) :
    ∃ summary, table.summarize probes = .ok summary
      ∧ (∀ pieces : Pieces, pieces.probes = probes → pieces.summarize table = .ok summary)
      ∧ summary.probes = probes.length
      ∧ summary.hits + summary.outOfRange + summary.mismatches + summary.falsePositives
          = summary.probes
      ∧ summary.falsePositives = 0
      ∧ table.falsePositives probes = .ok []
      ∧ summary.outOfRange = probes.countP (fun probe =>
          table.lookup probe = .ok none
            ∧ (probe.utf8ByteSize < table.minWordLength ∨ table.maxWordLength < probe.utf8ByteSize
              ∨ table.maxHash < table.hashSum (Text.bytes probe)))
      ∧ summary.hits = probes.countP (fun probe => table.lookup probe ≠ .ok none)
      ∧ (table.verify = .ok () →
          summary.hits = probes.countP fun probe => ∃ keyword ∈ table.keywords, keyword.text = probe) := by
  have consistent := obtained.consistent
  have summarized := consistent.summarize_eq_tally sum_lt
  refine ⟨_, summarized, ?_, ?_, ProbeSummary.sum_tally _, ?_, consistent.falsePositives_eq_ok sum_lt,
    ?_, ?_, ?_⟩
  · rintro pieces rfl
    rw [pieces.summarize_eq, summarized]
  · exact List.length_map _
  · rw [ProbeSummary.tally, List.count_eq_zero]
    intro hFalse
    obtain ⟨probe, _, disposal_eq⟩ := List.mem_map.1 hFalse
    exact disposal_ne_falsePositive disposal_eq
  · rw [ProbeSummary.outOfRange_tally_map]
    apply List.countP_congr
    intro probe hProbe
    simp [consistent.lookup_eq_found? (sum_lt probe hProbe), disposal_eq_outOfRange_iff]
  · rw [ProbeSummary.hits_tally_map]
    apply List.countP_congr
    intro probe hProbe
    simp [consistent.lookup_eq_found? (sum_lt probe hProbe), disposal_eq_hit_iff,
      Option.isSome_iff_ne_none]
  · intro verified
    rw [ProbeSummary.hits_tally_map]
    apply List.countP_congr
    intro probe hProbe
    simp [disposal_eq_hit_iff, consistent.isSome_found?_iff_of_verify verified (sum_lt probe hProbe)]

/-- Probes for the table of three words. -/
def reservedProbes : List String :=
  ["if", "in", "int", "is", "on", "", "ifs", "x"]

/-- The probes are cut into pieces, of which one is empty. Three of them are keywords, `on` has the slot of
    another word, and four are out of range, of which `is` by its hash. -/
theorem summarize_reserved :
    reservedTable.Obtained
      ∧ (∀ probe ∈ reservedProbes, reservedTable.hashSum (Text.bytes probe) < wordLimit)
      ∧ reservedTable.verify = .ok ()
      ∧ (Pieces.join (.whole ["if", "in", "int"])
          (.join (.whole []) (.whole ["is", "on", "", "ifs", "x"]))).summarize reservedTable
        = .ok { probes := 8, hits := 3, outOfRange := 4, mismatches := 1 }
      ∧ 3 = reservedProbes.countP fun probe =>
          ∃ keyword ∈ reservedTable.keywords, keyword.text = probe := by
  have obtained : reservedTable.Obtained := .built reservedWords 100 build_reserved
  have sum_lt : ∀ probe ∈ reservedProbes, reservedTable.hashSum (Text.bytes probe) < wordLimit := by
    decide +kernel
  have verified : reservedTable.verify = .ok () := by decide +kernel
  obtain ⟨summary, hSummary, joined, _, _, _, _, _, _, hits_eq⟩ := obtained.summarize_probes sum_lt
  have computed : reservedTable.summarize reservedProbes
      = .ok { probes := 8, hits := 3, outOfRange := 4, mismatches := 1 } := by
    decide +kernel
  rw [hSummary] at computed
  injection computed with summary_eq
  subst summary_eq
  exact ⟨obtained, sum_lt, verified, joined _ rfl, hits_eq verified⟩

end Table

end KeywordHash
