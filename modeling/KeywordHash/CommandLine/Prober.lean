/-
Module: KeywordHash.CommandLine.Prober
Layer: CommandLine
Purpose: The program that throws random words at a table and counts what becomes of them. Its argument is
  the path of a table document or of keyword definitions. A false positive makes the run fail.
Imports: KeywordHash.CommandLine.Generator, KeywordHash.Random.Stream, KeywordHash.Random.Words,
  KeywordHash.Table.Probe
Trusted boundary: none
Main exports: CommandLine.prober
Open obligations: none
-/
import KeywordHash.CommandLine.Generator
import KeywordHash.Random.Stream
import KeywordHash.Random.Words
import KeywordHash.Table.Probe

namespace KeywordHash.CommandLine

/-- An error and what was being done. -/
structure Failure where
  context : List String := []
  error : Error

/-- The number in a variable. -/
def numberIn (environment : Variables) (name : String) : Option Nat :=
  (environment name).bind (Text.numeral? ·.toList)

/-- How the probes are drawn. -/
structure ProbePlan where
  seed : Nat
  count : Nat
  maxLength : Nat
deriving DecidableEq, Repr

/-- The plan that the variables ask for. Unless they say otherwise, probes are up to two characters longer
    than the longest keyword. -/
def planOf (environment : Variables) (table : Table) (defaultSeed : Nat) : Except Fault ProbePlan :=
  let longest := table.maxWordLength + 2
  if longest < wordLimit then
    .ok
      { seed := (numberIn environment "PROBE_SEED").getD defaultSeed
        count := (numberIn environment "PROBE_COUNT").getD 1000000
        maxLength := (numberIn environment "PROBE_MAX_LEN").getD longest }
  else
    .error (.lengthOverflow table.maxWordLength)

/-- The seed of the words that are made from the table. -/
def tableSeed (seed : Nat) : UInt64 :=
  UInt64.ofNat seed ^^^ 0x9E3779B97F4A7C15

/-- The words of a plan: probes, then a sixteenth of their number of near misses, then a sentinel word for
    each length of keywords. -/
def planWords (table : Table) (plan : ProbePlan) : Except Fault (List String) := do
  let probes ← ((Random.probes plan.count plan.maxLength).run
    (Random.Stream.ofSeed (UInt64.ofNat plan.seed))).1
  let lengths := List.range' table.minWordLength (table.maxWordLength + 1 - table.minWordLength)
  let fromTable : Random.Draw Random.Stream (List String × List String) := do
    let misses ← Random.nearMisses table (plan.count / 16)
    let sentinels ← lengths.filterMapM (Random.sentinelWord table)
    return (misses, sentinels)
  let (misses, sentinels) ← (fromTable.run (Random.Stream.ofSeed (tableSeed plan.seed))).1
  return probes ++ misses ++ sentinels

/-- A line of the program. -/
def proberLine (message : String) : String :=
  "[probe] " ++ message

/-- Whole milliseconds between two times in nanoseconds. -/
def milliseconds (start finish : Nat) : Nat :=
  (finish - start) / 1000000

variable {m : Type → Type} [Monad m] [Host m]

/-- Tell what is being done with the errors of an action. -/
def within {α : Type} (context : String) (action : ExceptT Error m α) : ExceptT Failure m α :=
  action.adapt fun error => { context := [context], error := error }

/-- Pass on an error without a word on what is being done. -/
def plain {α : Type} (result : Except Error α) : ExceptT Failure m α :=
  ExceptT.mk (pure (result.mapError fun error => { error := error }))

/-- The table at a path: a document if the name says so, and otherwise one that is built. -/
def tableAt (path : String) (environment : Variables) : ExceptT Failure m Table := do
  if Path.extension? path = some "json" then
    within s!"loading {path}" (loadTable path)
  else
    let definitions ← within s!"reading {path}" (readDefinitions path)
    within s!"building table for {path}"
      (liftM (Table.build definitions.keywords (Config.ofVariables environment).maxTries))

/-- Probe the table at a path. -/
def probeAt (path : String) (environment : Variables) : ExceptT Failure m Outcome := do
  let table ← tableAt path environment
  plain table.verify
  let start ← (Host.now : m Nat)
  let plan ← plain (orFault (planOf environment table (start % wordLimit)))
  let words ← plain (orFault (planWords table plan))
  let drawn ← (Host.now : m Nat)
  let first := proberLine (s!"{words.length} probes (seed {plan.seed}, "
    ++ s!"max len {plan.maxLength}) generated in {milliseconds start drawn} ms")
  let summary ← plain (orFault (table.summarize words))
  let finish ← (Host.now : m Nat)
  let second := proberLine (s!"hits={summary.hits} out_of_range={summary.outOfRange} "
    ++ s!"slot_mismatch={summary.mismatches} false_positives={summary.falsePositives} "
    ++ s!"({milliseconds drawn finish} ms)")
  if summary.falsePositives = 0 then
    return { output := text [first, second] }
  else
    let found ← plain (orFault (table.falsePositives words))
    return {
      exitCode := 1
      output := text [first, second]
      errors := text ((found.take 10).map fun word =>
        proberLine ("false positive: " ++ Text.quoted word)) }

/-- Run the program. -/
def prober (arguments : List String) (environment : Variables) : m Outcome := do
  match ← (probeAt (arguments[0]?.getD defaultDefinitions) environment).run with
  | .ok outcome => return outcome
  | .error failure =>
      return .ofError failure.error ("error" :: failure.context ++ failure.error.chain)

end KeywordHash.CommandLine
