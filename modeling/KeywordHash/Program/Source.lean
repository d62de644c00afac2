/-
Module: KeywordHash.Program.Source
Layer: Program
Purpose: The text of a look-up program, as Rust source for a lexer. The text depends on the program, two
  names and the choice of unprintable characters only, so the same table always gives the same text.
  Each line of the text ends with a line feed.
Imports: KeywordHash.Program, KeywordHash.Text.Quoted
Trusted boundary: none
Main exports: SourceNames, Program.sourceLines, Program.sourceBy, Program.source, Table.source
Open obligations: none
-/
import KeywordHash.Program
import KeywordHash.Text.Quoted

namespace KeywordHash

/-- The names that a source text mentions besides those of the table. -/
structure SourceNames where
  /-- The type of the payloads. -/
  payloadType : String
  /-- The name of the file with the keyword definitions. -/
  definitions : String
deriving DecidableEq, Repr

/-- The lengths of an arm as a pattern. -/
def Arm.pattern (arm : Arm) : String :=
  match arm.longest with
  | none => s!"{arm.shortest}.."
  | some longest =>
      if longest = arm.shortest then s!"{longest}" else s!"{arm.shortest}..={longest}"

namespace Program

/-- A line further in by the given number of steps. -/
def indented (steps : Nat) (line : String) : String :=
  String.ofList (List.replicate (4 * steps) ' ') ++ line

/-- The comment on top and the constants. -/
def headLines (program : Program) (names : SourceNames) : List String :=
  [s!"// Keyword table for `{names.definitions}`.",
    "// @generated by gen_keyword_table. DO NOT EDIT.",
    "//",
    s!"// Signature offsets: {program.signature.describe}",
    "",
    s!"pub const MIN_WORD_LENGTH: usize = {program.minWordLength};",
    s!"pub const MAX_WORD_LENGTH: usize = {program.maxWordLength};",
    s!"pub const MAX_HASH_VALUE: usize = {program.maxHash};",
    ""]

/-- How many values stand on one line. -/
def valuesPerLine : Nat := 10

/-- A number behind as many blanks as make it the given width. -/
def paddedNumber (width n : Nat) : String :=
  let digits := Nat.repr n
  String.ofList (List.replicate (width - digits.length) ' ') ++ digits

/-- The lines of values, all as wide as the number that stands for unused characters. -/
def valueLines (program : Program) : List String :=
  let width := (Nat.repr (program.maxHash + 1)).length
  let cells := program.values.toList.map (paddedNumber width)
  (List.range ((asciiCount + valuesPerLine - 1) / valuesPerLine)).map fun line =>
    let row := (cells.drop (valuesPerLine * line)).take valuesPerLine
    indented 1 (String.intercalate ", " row ++ ",")

/-- The array of values and the access to it. -/
def valueSection (program : Program) : List String :=
  ["// Characters no keyword samples hold MAX_HASH_VALUE + 1.",
    s!"static ASSO_VALUES: [{program.elementType.name}; {asciiCount}] = ["]
  ++ program.valueLines
  ++ ["];",
    "",
    "#[inline]",
    "fn asso(byte: u8) -> usize \x7b",
    indented 1 "match ASSO_VALUES.get(byte as usize) \x7b",
    indented 2 "Some(&v) => v as usize,",
    indented 2 "None => MAX_HASH_VALUE + 1,",
    indented 1 "\x7d",
    "\x7d",
    ""]

/-- The lines of an arm. -/
def armLines (arm : Arm) : List String :=
  [indented 2 (arm.pattern ++ " => \x7b")]
  ++ arm.offsets.map (fun offset => indented 3 s!"hval += asso(word[{offset}]);")
  ++ [indented 2 "\x7d"]

/-- The hash function. -/
def hashSection (program : Program) : List String :=
  ["fn hash(word: &[u8]) -> usize \x7b",
    indented 1 "let mut hval = word.len();",
    indented 1 "match word.len() \x7b"]
  ++ program.arms.flatMap armLines
  ++ [indented 2 "_ => \x7b\x7d",
    indented 1 "\x7d",
    indented 1 "hval",
    "\x7d",
    ""]

/-- The line of a row. -/
def rowLine (unprintable : Char → Bool) : Row → String
  | some (text, payload) =>
      indented 1 ("(" ++ Text.quotedBy unprintable text ++ ", Some(" ++ payload ++ ")),")
  | none => indented 1 "(\"\", None),"

/-- The array of rows. -/
def rowSection (program : Program) (unprintable : Char → Bool) (names : SourceNames) : List String :=
  [s!"static WORDLIST: [(&str, Option<{names.payloadType}>); MAX_HASH_VALUE + 1] = ["]
  ++ program.rows.toList.map (rowLine unprintable)
  ++ ["];",
    ""]

/-- The look-up function. -/
def lookupSection (names : SourceNames) : List String :=
  [s!"pub fn lookup(word: &str) -> Option<{names.payloadType}> \x7b",
    indented 1 "if !(MIN_WORD_LENGTH..=MAX_WORD_LENGTH).contains(&word.len()) \x7b",
    indented 2 "return None;",
    indented 1 "\x7d",
    indented 1 "let key = hash(word.as_bytes());",
    indented 1 "if key > MAX_HASH_VALUE \x7b",
    indented 2 "return None;",
    indented 1 "\x7d",
    indented 1 "match WORDLIST[key] \x7b",
    indented 2 "(name, Some(kind)) if name == word => Some(kind),",
    indented 2 "_ => None,",
    indented 1 "\x7d",
    "\x7d"]

/-- The lines of the text. A payload or name that holds a line feed makes a line more than one. -/
def sourceLines (program : Program) (unprintable : Char → Bool) (names : SourceNames) : List String :=
  program.headLines names ++ program.valueSection ++ program.hashSection
    ++ program.rowSection unprintable names ++ lookupSection names

/-- The text of the program, for a choice of unprintable characters. -/
def sourceBy (program : Program) (unprintable : Char → Bool) (names : SourceNames) : String :=
  String.join ((program.sourceLines unprintable names).map (· ++ "\n"))

/-- The text of the program. -/
def source (program : Program) (names : SourceNames) : String :=
  program.sourceBy Text.isUnprintable names

end Program

/-- The text of the program of a table. -/
def Table.source (table : Table) (names : SourceNames) : Except Fault String :=
  (Program.ofTable table).map (·.source names)

end KeywordHash
