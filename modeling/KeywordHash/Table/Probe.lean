/-
Module: KeywordHash.Table.Probe
Layer: Table
Purpose: What becomes of probe words in a look-up, told for one word and counted for many. Counts of the
  parts of a list add up to the counts of the list.
Imports: KeywordHash.Table
Trusted boundary: none
Main exports: Disposal, Table.dispose, ProbeSummary, ProbeSummary.merge, Table.summarize,
  Table.falsePositives
Open obligations: none
-/
import KeywordHash.Table

namespace KeywordHash

/-- What becomes of a probe. -/
inductive Disposal where
  /-- The probe is a keyword and is found. -/
  | hit
  /-- The length or the hash is out of the range of the table. -/
  | outOfRange
  /-- The slot is empty or holds another text. -/
  | mismatch
  /-- A keyword with another text is found. -/
  | falsePositive
deriving DecidableEq, Repr

/-- How many probes met each end. -/
structure ProbeSummary where
  probes : Nat := 0
  hits : Nat := 0
  outOfRange : Nat := 0
  mismatches : Nat := 0
  falsePositives : Nat := 0
deriving DecidableEq, Repr

namespace ProbeSummary

/-- The summary of a single probe. -/
def ofDisposal : Disposal → ProbeSummary
  | .hit => { probes := 1, hits := 1 }
  | .outOfRange => { probes := 1, outOfRange := 1 }
  | .mismatch => { probes := 1, mismatches := 1 }
  | .falsePositive => { probes := 1, falsePositives := 1 }

/-- The summary of two lists of probes together. -/
def merge (a b : ProbeSummary) : ProbeSummary where
  probes := a.probes + b.probes
  hits := a.hits + b.hits
  outOfRange := a.outOfRange + b.outOfRange
  mismatches := a.mismatches + b.mismatches
  falsePositives := a.falsePositives + b.falsePositives

end ProbeSummary

namespace Table

/-- Tell what becomes of a probe. The hash is taken of probes of all lengths. -/
def dispose (table : Table) (probe : String) : Except Fault Disposal := do
  let hash ← table.hash (Text.bytes probe)
  match ← table.lookup probe with
  | some keyword => return if keyword.text = probe then .hit else .falsePositive
  | none =>
      if !table.hasLength probe.utf8ByteSize || table.maxHash < hash then
        return .outOfRange
      else
        return .mismatch

/-- Count what becomes of the probes. -/
def summarize (table : Table) (probes : List String) : Except Fault ProbeSummary :=
  probes.foldlM (fun summary probe => do
    let disposal ← table.dispose probe
    return summary.merge (.ofDisposal disposal)) {}

/-- The probes under which a keyword with another text is found. -/
def falsePositives (table : Table) (probes : List String) : Except Fault (List String) :=
  probes.filterMapM fun probe => do
    match ← table.lookup probe with
    | some keyword => return if keyword.text = probe then none else some probe
    | none => return none

end Table

end KeywordHash
