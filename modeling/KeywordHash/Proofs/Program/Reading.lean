/-
Module: KeywordHash.Proofs.Program.Reading
Layer: Proofs
Purpose: How the lines of a Rust source text are read (`SourceLanguage.read`). A line is cut into words,
  numbers and single signs, which tell what the line is; lines that open something are gathered with
  those up to the one that closes it. Comments, attributes and empty lines say nothing. Only what stands
  in a row is taken as it is, and of an optional type it is left open what it is optional for. Everything
  that is not understood makes the reading fail, so no text is taken for something that it is not.
Imports: KeywordHash.Proofs.Program.Language, Mathlib.Data.List.DropRight
Trusted boundary: none
Main exports: SourceLanguage.tokens, SourceLanguage.Token.term?, SourceLanguage.Token.pattern?,
  SourceLanguage.CodeLine, SourceLanguage.CodeLine.read, SourceLanguage.State,
  SourceLanguage.State.next?, SourceLanguage.read
Open obligations: none
-/
import KeywordHash.Proofs.Program.Language
import Mathlib.Data.List.DropRight

namespace KeywordHash.SourceLanguage

/-! ### Tokens -/

/-- What a line is made of. A word of digits that is a machine word is a number. -/
inductive Token where
  | number (n : Nat)
  | word (text : String)
  | sign (c : Char)
deriving DecidableEq, Repr

/-- Letters, digits and underscores make up words. -/
def isWordCharacter (c : Char) : Bool :=
  c.isAlphanum || c = '_'

/-- The token that a word or a single character is, if it is not a blank. -/
def Token.ofCharacters? : List Char → Option Token
  | [] => none
  | c :: rest =>
      if isWordCharacter c then
        some ((Text.numeral? (c :: rest)).elim (.word (String.ofList (c :: rest))) .number)
      else if c = ' ' then
        none
      else
        some (.sign c)

/-- The tokens of a line. -/
def tokens (line : List Char) : List Token :=
  (line.splitBy fun c d => isWordCharacter c && isWordCharacter d).filterMap Token.ofCharacters?

/-! ### Terms and patterns -/

namespace Token

/-- What is behind a sign. -/
def behind? (c : Char) : List Token → Option (List Token)
  | .sign d :: rest => if d = c then some rest else none
  | _ => none

/-
Each of these reads one part of a term and gives the tokens behind it. What binds less is made of what
binds more, and each step towards the inside takes one from the depth to which terms are read.
-/
mutual

/-- A term as a whole: a sum, or two of them that are compared or begin and end a range. -/
def comparison? : Nat → List Token → Option (Term × List Token)
  | 0, _ => none
  | depth + 1, tokens => do
      let (first, rest) ← sum? depth tokens
      match rest with
      | .sign '>' :: rest => do
          let (second, rest) ← sum? depth rest
          return (.greater first second, rest)
      | .sign '=' :: .sign '=' :: rest => do
          let (second, rest) ← sum? depth rest
          return (.equal first second, rest)
      | .sign '.' :: .sign '.' :: .sign '=' :: rest => do
          let (last, rest) ← sum? depth rest
          return (.through first last, rest)
      | _ => return (first, rest)

/-- A part that may be of another type, and what may be added to it. -/
def sum? : Nat → List Token → Option (Term × List Token)
  | 0, _ => none
  | depth + 1, tokens => do
      let (first, rest) ← operand? depth tokens
      match rest with
      | .sign '+' :: rest => do
          let (second, rest) ← operand? depth rest
          return (.add first second, rest)
      | .word "as" :: .word type :: rest => return (.cast first type, rest)
      | _ => return (first, rest)

/-- A part with signs in front or methods and positions behind. -/
def operand? : Nat → List Token → Option (Term × List Token)
  | 0, _ => none
  | depth + 1, .sign '!' :: rest => do
      let (term, rest) ← operand? depth rest
      return (.not term, rest)
  | depth + 1, .sign '&' :: rest => do
      let (term, rest) ← operand? depth rest
      return (.borrow term, rest)
  | _ + 1, .number n :: rest => some (.number n, rest)
  | depth + 1, .sign '(' :: rest => do
      let (term, rest) ← comparison? depth rest
      suffixes? depth term (← behind? ')' rest)
  | depth + 1, .word function :: .sign '(' :: rest => do
      let (argument, rest) ← comparison? depth rest
      suffixes? depth (.call function argument) (← behind? ')' rest)
  | depth + 1, .word name :: rest => suffixes? depth (.named name) rest
  | _, _ => none

/-- The methods and positions behind a term. -/
def suffixes? : Nat → Term → List Token → Option (Term × List Token)
  | 0, _, _ => none
  | depth + 1, term, .sign '.' :: .word method :: .sign '(' :: .sign ')' :: rest =>
      suffixes? depth (.method term method) rest
  | depth + 1, term, .sign '.' :: .word method :: .sign '(' :: rest => do
      let (argument, rest) ← comparison? depth rest
      suffixes? depth (.methodOf term method argument) (← behind? ')' rest)
  | depth + 1, term, .sign '[' :: rest => do
      let (position, rest) ← comparison? depth rest
      suffixes? depth (.index term position) (← behind? ']' rest)
  | _ + 1, term, rest => some (term, rest)

end

/-- Terms are read to this depth, which no line of a look-up program comes near. -/
def termDepth : Nat := 40

/-- A term, and the tokens behind it. -/
def term? (tokens : List Token) : Option (Term × List Token) :=
  comparison? termDepth tokens

/-- A term with a certain ending and nothing behind it. -/
def endedTerm? (ending tokens : List Token) : Option Term := do
  let (term, rest) ← term? tokens
  if rest = ending then return term else none

/-- A pattern, and the tokens behind it. -/
def patternTo? : Nat → List Token → Option (Pattern × List Token)
  | 0, _ => none
  | _ + 1, .number least :: .sign '.' :: .sign '.' :: .sign '=' :: .number greatest :: rest =>
      some (.between least greatest, rest)
  | _ + 1, .number least :: .sign '.' :: .sign '.' :: rest => some (.onwards least, rest)
  | _ + 1, .number n :: rest => some (.number n, rest)
  | _ + 1, .word "_" :: rest => some (.any, rest)
  | _ + 1, .word "None" :: rest => some (.absent, rest)
  | depth + 1, .word "Some" :: .sign '(' :: rest => do
      let (content, rest) ← patternTo? depth rest
      return (.present content, ← behind? ')' rest)
  | _ + 1, .word name :: rest => some (.named name, rest)
  | depth + 1, .sign '&' :: rest => patternTo? depth rest
  | depth + 1, .sign '(' :: rest => do
      let (first, rest) ← patternTo? depth rest
      let (second, rest) ← patternTo? depth (← behind? ',' rest)
      return (.pair first second, ← behind? ')' rest)
  | _, _ => none

def pattern? (tokens : List Token) : Option (Pattern × List Token) :=
  patternTo? termDepth tokens

/-! ### Types -/

/-- The tokens behind the last sign of this kind. Of an optional type it is left open what it is optional
    for, and this may hold any signs, but nothing that follows the type on its line closes a bracket of
    this kind. -/
def behindLast (c : Char) (tokens : List Token) : List Token :=
  tokens.rtakeWhile (· ≠ .sign c)

/-- A type, and the tokens behind it. -/
def type? : List Token → Option (ValueType × List Token)
  | .sign '&' :: .sign '[' :: .word "u8" :: .sign ']' :: rest => some (.bytes, rest)
  | .sign '&' :: .word "str" :: rest => some (.text, rest)
  | .word "Option" :: .sign '<' :: rest => some (.optional, behindLast '>' rest)
  | .word name :: rest => some (.number name, rest)
  | _ => none

/-- Numbers, each with a comma behind it. -/
def numbers? : List Token → Option (List Nat)
  | [] => some []
  | .number n :: .sign ',' :: rest => (numbers? rest).map (n :: ·)
  | _ => none

end Token

/-! ### Lines -/

/-- What a line is. -/
inductive CodeLine where
  | ignored
  | constant (name type : String) (value : Term)
  | openNumbers (name type : String) (length : Term)
  | openRows (name : String) (length : Term)
  | numbers (cells : List Nat)
  | row (row : String × Option String)
  | closeArray
  | openFunction (name parameter : String) (parameterType resultType : ValueType)
  | bind (name : String) (value : Term)
  | increase (step : String × Term)
  | answer (value : Term)
  | openConditional (test : Term)
  | openChoice (subject : Term)
  | openCase (pattern : Pattern) (guard : Option Term)
  | case (case : Case)
  | value (term : Term)
  | closeBlock
deriving DecidableEq, Repr

namespace CodeLine

open Token

/-- A constant, behind the word that declares it. -/
def constant? : List Token → Option CodeLine
  | .word name :: .sign ':' :: .word type :: .sign '=' :: rest =>
      (endedTerm? [.sign ';'] rest).map (.constant name type)
  | _ => none

/-- An array of rows or of numbers that begins, behind the word that declares it. -/
def array? : List Token → Option CodeLine
  | .word name :: .sign ':' :: .sign '[' :: .sign '(' :: .sign '&' :: .word "str" :: .sign ',' :: rest => do
      let (_, rest) ← type? rest
      let length ← behind? ')' rest >>= behind? ';'
      (endedTerm? [.sign ']', .sign '=', .sign '['] length).map (.openRows name)
  | .word name :: .sign ':' :: .sign '[' :: .word type :: .sign ';' :: rest =>
      (endedTerm? [.sign ']', .sign '=', .sign '['] rest).map (.openNumbers name type)
  | _ => none

/-- A function that begins, behind the word that declares it. -/
def function? : List Token → Option CodeLine
  | .word name :: .sign '(' :: .word parameter :: .sign ':' :: rest => do
      let (parameterType, rest) ← type? rest
      let (resultType, rest) ← type? (← behind? ')' rest >>= behind? '-' >>= behind? '>')
      if rest = [.sign '\x7b'] then
        return .openFunction name parameter parameterType resultType
      else
        none
  | _ => none

/-- The guard of a case, if there is one, and the tokens behind it. -/
def guard? : List Token → Option (Option Term × List Token)
  | .word "if" :: rest => (term? rest).map fun (guard, rest) => (some guard, rest)
  | tokens => some (none, tokens)

/-- A case on one line, or one that begins. -/
def case? (tokens : List Token) : Option CodeLine := do
  let (pattern, rest) ← pattern? tokens
  let (guard, rest) ← guard? rest
  match ← behind? '=' rest >>= behind? '>' with
  | [.sign '\x7b'] => return .openCase pattern guard
  | [.sign '\x7b', .sign '\x7d'] => return .case ⟨pattern, guard, .increases []⟩
  | rest => (endedTerm? [.sign ','] rest).map fun term => .case ⟨pattern, guard, .value term⟩

/-- What the tokens of a line make it. -/
def ofTokens? : List Token → Option CodeLine
  | [] => some .ignored
  | .sign '/' :: .sign '/' :: _ => some .ignored
  | .sign '#' :: _ => some .ignored
  | [.sign ']', .sign ';'] => some .closeArray
  | [.sign '\x7d'] => some .closeBlock
  | .word "const" :: rest | .word "pub" :: .word "const" :: rest => constant? rest
  | .word "static" :: rest | .word "pub" :: .word "static" :: rest => array? rest
  | .word "fn" :: rest | .word "pub" :: .word "fn" :: rest => function? rest
  | .word "let" :: .word "mut" :: .word name :: .sign '=' :: rest
  | .word "let" :: .word name :: .sign '=' :: rest => (endedTerm? [.sign ';'] rest).map (.bind name)
  | .word "return" :: rest => (endedTerm? [.sign ';'] rest).map .answer
  | .word "if" :: rest => (endedTerm? [.sign '\x7b'] rest).map .openConditional
  | .word "match" :: rest => (endedTerm? [.sign '\x7b'] rest).map .openChoice
  | .word name :: .sign '+' :: .sign '=' :: rest =>
      (endedTerm? [.sign ';'] rest).map fun amount => .increase (name, amount)
  | .number n :: .sign ',' :: rest => (numbers? rest).map fun others => .numbers (n :: others)
  | tokens => (case? tokens).or ((endedTerm? [] tokens).map .value)

/-- A text in double quotes, without the one in front, and the characters behind it. What stands for a
    character by its number is read digit by digit. -/
def quoted? : Option Nat → List Char → Option (List Char × List Char)
  | none, '"' :: rest => some ([], rest)
  | none, '\\' :: 'u' :: '\x7b' :: rest => quoted? (some 0) rest
  | none, '\\' :: name :: rest => do
      let c ← [('"', '"'), ('\\', '\\'), ('n', '\n'), ('r', '\r'), ('t', '\t'), ('0', '\x00')].lookup name
      (quoted? none rest).map fun (text, behind) => (c :: text, behind)
  | none, c :: rest => (quoted? none rest).map fun (text, behind) => (c :: text, behind)
  | some n, '\x7d' :: rest =>
      if n.isValidChar then
        (quoted? none rest).map fun (text, behind) => (Char.ofNat n :: text, behind)
      else
        none
  | some n, digit :: rest => do
      let value ← "0123456789abcdef".toList.idxOf? digit
      quoted? (some (16 * n + value)) rest
  | _, [] => none

/-- A row: a text and an expression, or a text and nothing. The expression is taken as it is. -/
def row? : List Char → Option (String × Option String)
  | '(' :: '"' :: rest => do
      let (text, behind) ← quoted? none rest
      if behind = ", None),".toList then
        return (String.ofList text, none)
      else
        let expression ← behind.dropPrefix? ", Some(".toList >>= (·.dropSuffix? ")),".toList)
        return (String.ofList text, some (String.ofList expression))
  | _ => none

/-- Read a line. What is behind its blanks is a row if it can not be understood by its tokens. -/
def read (line : String) : Option CodeLine :=
  (ofTokens? (tokens line.toList)).or ((row? (line.toList.dropWhile (· = ' '))).map .row)

end CodeLine

/-! ### Files -/

/-- Where reading is in a file: between items, or in something that is not closed. -/
inductive Place where
  | top
  | numbers (name type : String) (length : Term) (cells : List Nat)
  | rows (name : String) (length : Term) (rows : List (String × Option String))
  | body (function : Function)
  | conditional (function : Function) (test : Term) (answer : Option Term)
  | choice (function : Function) (subject : Term) (cases : List Case)
  | case (function : Function) (subject : Term) (cases : List Case) (pattern : Pattern)
      (guard : Option Term) (steps : List (String × Term))
deriving DecidableEq, Repr

/-- What was read so far. -/
structure State where
  items : List Item := []
  place : Place := .top
deriving DecidableEq, Repr

/-- The function with one more statement. -/
def Function.add (function : Function) (statement : Statement) : Function :=
  { function with statements := function.statements ++ [statement] }

/-- Go on at another place. -/
def Place.next? : Place → CodeLine → Option Place
  | place, .ignored => some place
  | .top, .openNumbers name type length => some (.numbers name type length [])
  | .top, .openRows name length => some (.rows name length [])
  | .top, .openFunction name parameter parameterType resultType =>
      some (.body ⟨name, parameter, parameterType, resultType, []⟩)
  | .numbers name type length cells, .numbers more => some (.numbers name type length (cells ++ more))
  | .rows name length list, .row row => some (.rows name length (list ++ [row]))
  | .body function, .bind name value => some (.body (function.add (.bind name value)))
  | .body function, .increase (name, amount) => some (.body (function.add (.increase name amount)))
  | .body function, .value term => some (.body (function.add (.value term)))
  | .body function, .openConditional test => some (.conditional function test none)
  | .body function, .openChoice subject => some (.choice function subject [])
  | .conditional function test none, .answer value => some (.conditional function test (some value))
  | .conditional function test (some answer), .closeBlock =>
      some (.body (function.add (.answerIf test answer)))
  | .choice function subject cases, .openCase pattern guard =>
      some (.case function subject cases pattern guard [])
  | .choice function subject cases, .case found => some (.choice function subject (cases ++ [found]))
  | .choice function subject cases, .closeBlock => some (.body (function.add (.choose subject cases)))
  | .case function subject cases pattern guard steps, .increase step =>
      some (.case function subject cases pattern guard (steps ++ [step]))
  | .case function subject cases pattern guard steps, .closeBlock =>
      some (.choice function subject (cases ++ [⟨pattern, guard, .increases steps⟩]))
  | _, _ => none

/-- The item that a line makes complete. -/
def Place.item? : Place → CodeLine → Option Item
  | .top, .constant name type value => some (.constant name type value)
  | .numbers name type length cells, .closeArray => some (.numbers name type length cells)
  | .rows name length list, .closeArray => some (.rows name length list)
  | .body function, .closeBlock => some (.function function)
  | _, _ => none

/-- Go on by one line. -/
def State.next? (state : State) (line : CodeLine) : Option State :=
  match state.place.item? line with
  | some item => some { items := state.items ++ [item], place := .top }
  | none => (state.place.next? line).map fun place => { state with place := place }

/-- The items that lines make up, if nothing is left open at the end. -/
def read (lines : List String) : Option (List Item) := do
  let state ← (← lines.mapM CodeLine.read).foldlM State.next? {}
  if state.place = .top then return state.items else none

end KeywordHash.SourceLanguage
