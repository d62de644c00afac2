/-
Module: KeywordHash.CommandLine.Generator
Layer: CommandLine
Purpose: The program that generates a look-up program from a file of keyword definitions. Its arguments
  are the paths of the definitions and of the program, both with defaults.
Imports: KeywordHash.CommandLine.Outcome, KeywordHash.Generate
Trusted boundary: none
Main exports: CommandLine.generator
Open obligations: none
-/
import KeywordHash.CommandLine.Outcome
import KeywordHash.Generate

namespace KeywordHash.CommandLine

/-- Where keyword definitions are read if no path is given. -/
def defaultDefinitions : String := "keywords/lanius.kw"

/-- Where the generated program is put if no path is given. -/
def defaultProgram : String := "generated/keyword_table.rs"

/-- A line of the program. -/
def generatorLine (message : String) : String :=
  "[gen_keyword_table] " ++ message

/-- The line about what is going to be done. -/
def announcement (input output : String) (config : Config) : String :=
  generatorLine (s!"{input} -> {output} (max tries {config.maxTries}, "
    ++ s!"payload {config.payloadType})")

/-- The lines about what was done. -/
def report (table : Table) (output : String) (config : Config) : List String :=
  [generatorLine (s!"{table.keywords.length} keywords, "
      ++ s!"length {table.minWordLength}..={table.maxWordLength}, "
      ++ s!"signature {table.signature.describe}, max hash {table.maxHash}"),
    generatorLine (s!"{table.stats.signaturesTried} signatures tried, "
      ++ s!"{table.stats.adjustments} adjustments"),
    generatorLine s!"wrote {output}"]
  ++ (config.documentPath.map fun path => generatorLine s!"wrote {path}").toList

/-- The advice that goes with an error. -/
def advice : Error → List String
  | .gaveUp _ => ["         no table written; try a larger KWTABLE_MAX_TRIES"]
  | _ => []

variable {m : Type → Type} [Monad m] [Host m]

/-- Run the program. -/
def generator (arguments : List String) (environment : Variables) : m Outcome := do
  let input := arguments[0]?.getD defaultDefinitions
  let output := arguments[1]?.getD defaultProgram
  let config := Config.ofVariables environment
  let first := announcement input output config
  match ← (generate input output config).run with
  | .ok table => return { output := text (first :: report table output config) }
  | .error error =>
      let outcome := Outcome.ofError error
        ("error" :: s!"failed to generate keyword table from {input}" :: error.chain)
      return { outcome with
        output := text [first]
        errors := outcome.errors ++ text (advice error) }

end KeywordHash.CommandLine
