/-
Module: KeywordHash.Main
Layer: CommandLine
Purpose: The executable. The first argument chooses the program: `generate` for the generator, `probe` for
  the prober, and anything else for the sample.
Imports: KeywordHash.CommandLine.Generator, KeywordHash.CommandLine.Prober,
  KeywordHash.CommandLine.Sample
Trusted boundary: the operations of the operating system
Main exports: main
Open obligations: none
-/
import KeywordHash.CommandLine.Generator
import KeywordHash.CommandLine.Prober
import KeywordHash.CommandLine.Sample

namespace KeywordHash

/-- The failure that an error of the operating system stands for. -/
def FileFailure.ofSystem : IO.Error → FileFailure
  | .noFileOrDirectory _ _ _ => .notFound
  | .alreadyExists _ _ _ => .alreadyExists
  | .resourceBusy 16 _ => .busy
  | .invalidArgument _ 36 _ => .nameTooLong
  | .inappropriateType _ 20 _ => .notDirectory
  | .inappropriateType _ 21 _ => .isDirectory
  | error => .other (toString error)

/-- Run an action of the operating system and catch its failure. -/
def attempt {α : Type} (action : IO α) : IO (Except FileFailure α) := do
  try
    return .ok (← action)
  catch error =>
    return .error (FileFailure.ofSystem error)

instance : FileSystem IO where
  Temporary := String
  pathOf := id
  makeDirectories path := attempt (IO.FS.createDirAll path)
  createTemporary directory := attempt do
    let temporary := directory ++ "/.keywords-" ++ Nat.repr (← IO.monoNanosNow)
    let _ ← IO.FS.Handle.mk temporary .writeNew
    return temporary
  write temporary content := attempt (IO.FS.writeBinFile temporary ⟨content.toArray⟩)
  persist temporary path := attempt (IO.FS.rename temporary path)
  remove temporary := do
    let _ ← attempt (IO.FS.removeFile temporary)

instance : Host IO where
  readFile path := attempt do return (← IO.FS.readBinFile path).data.toList
  replaceFile path content := (replaceInSteps path content).run
  now := IO.monoNanosNow

/-- The variables that the programs look at, as the environment has them. -/
def readVariables : IO Variables := do
  let names :=
    ["KWTABLE_MAX_TRIES", "KWTABLE_PAYLOAD_TYPE", "KWTABLE_JSON", "PROBE_COUNT", "PROBE_SEED",
      "PROBE_MAX_LEN"]
  let values ← names.filterMapM fun name => do
    return (← IO.getEnv name).map fun value => (name, value)
  return fun name => values.lookup name

end KeywordHash

open KeywordHash in
/-- Run the program that the arguments ask for. -/
def main (arguments : List String) : IO UInt32 := do
  let environment ← readVariables
  let outcome ← match arguments with
    | "generate" :: rest => CommandLine.generator rest environment
    | "probe" :: rest => CommandLine.prober rest environment
    | _ => pure (CommandLine.sample environment)
  IO.print outcome.output
  IO.eprint outcome.errors
  return UInt32.ofNat outcome.exitCode
