/-
Module: KeywordHash.Proofs.Program.Language
Layer: Proofs
Purpose: The part of the Rust language in which look-up programs are written, as trees, and what such a
  program computes. Nothing here knows what the programs are for: the trees have constants, arrays and
  functions of one argument, and what they mean is said for all trees. A term without a value, an index
  outside an array, a sum past the machine word, a value that is not of its declared type and an array
  that is not as long as declared all make the program fail.
Imports: KeywordHash.Text.Bytes, KeywordHash.Text.Numeral
Trusted boundary: the trees stand for Rust programs, and a function sees only what stands before it
Main exports: SourceLanguage.Term, SourceLanguage.Pattern, SourceLanguage.Statement,
  SourceLanguage.Function, SourceLanguage.Item, SourceLanguage.Value, SourceLanguage.Scope,
  SourceLanguage.Term.eval, SourceLanguage.Scope.run, SourceLanguage.Scope.ofItems, SourceLanguage.call
Open obligations: none
-/
import KeywordHash.Text.Bytes
import KeywordHash.Text.Numeral

namespace KeywordHash.SourceLanguage

/-! ### Trees -/

/-- A term. Methods have at most one argument besides their receiver. -/
inductive Term where
  | number (n : Nat)
  | named (name : String)
  | call (function : String) (argument : Term)
  | method (receiver : Term) (name : String)
  | methodOf (receiver : Term) (name : String) (argument : Term)
  | index (array position : Term)
  | cast (term : Term) (type : String)
  | borrow (term : Term)
  | not (term : Term)
  | add (first second : Term)
  | greater (first second : Term)
  | equal (first second : Term)
  /-- The numbers from the first to the last, both included. -/
  | through (first last : Term)
deriving DecidableEq, Repr

/-- A pattern. A reference to a pattern is the pattern itself. -/
inductive Pattern where
  | any
  | number (n : Nat)
  | onwards (least : Nat)
  | between (least greatest : Nat)
  | named (name : String)
  | absent
  | present (content : Pattern)
  | pair (first second : Pattern)
deriving DecidableEq, Repr

/-- What is done in a case: variables are increased, or a value is given. -/
inductive Body where
  | increases (steps : List (String × Term))
  | value (term : Term)
deriving DecidableEq, Repr

/-- A case of a choice. -/
structure Case where
  pattern : Pattern
  guard : Option Term
  body : Body
deriving DecidableEq, Repr

/-- A statement. A value ends the function, so nothing may stand behind it. -/
inductive Statement where
  | bind (name : String) (value : Term)
  | increase (name : String) (amount : Term)
  /-- Give the answer at once if the test holds. -/
  | answerIf (test answer : Term)
  | choose (subject : Term) (cases : List Case)
  | value (term : Term)
deriving DecidableEq, Repr

/-- A type of arguments and results. Of an optional type it is not told what it is optional for. -/
inductive ValueType where
  | number (name : String)
  | bytes
  | text
  | optional
deriving DecidableEq, Repr

/-- A function of one argument. -/
structure Function where
  name : String
  parameter : String
  parameterType : ValueType
  resultType : ValueType
  statements : List Statement
deriving DecidableEq, Repr

/-- What stands in a file. A row is a text and, optionally, an expression that stands for itself. -/
inductive Item where
  | constant (name type : String) (value : Term)
  | numbers (name type : String) (length : Term) (cells : List Nat)
  | rows (name : String) (length : Term) (rows : List (String × Option String))
  | function (function : Function)
deriving DecidableEq, Repr

/-! ### Values -/

/-- A value. References are not told from what they refer to. -/
inductive Value where
  | number (n : Nat)
  | truth (holds : Bool)
  | text (content : String)
  | bytes (list : List UInt8)
  | expression (expression : String)
  | absent
  | present (content : Value)
  | pair (first second : Value)
  | range (first last : Nat)
  | array (elements : List Value)

/-- One more than the greatest number of a type, by the name of the type. -/
def numberLimit? (name : String) : Option Nat :=
  [("u8", 1 <<< 8), ("u16", 1 <<< 16), ("u32", 1 <<< 32), ("usize", wordLimit)].lookup name

namespace Value

/-- Is the value one of the type? -/
def hasType : Value → ValueType → Bool
  | .number n, .number name => (numberLimit? name).any (n < ·)
  | .bytes _, .bytes => true
  | .text _, .text => true
  | .absent, .optional => true
  | .present _, .optional => true
  | _, _ => false

/-- An optional value. -/
def ofOption : Option Value → Value
  | some content => .present content
  | none => .absent

/-- A text and an optional expression. -/
def ofRow (row : String × Option String) : Value :=
  .pair (.text row.1) (ofOption (row.2.map .expression))

/-- The sum of two machine words, if it is one. -/
def add : Value → Value → Option Value
  | .number m, .number n => if m + n < wordLimit then some (.number (m + n)) else none
  | _, _ => none

def greater : Value → Value → Option Value
  | .number m, .number n => some (.truth (n < m))
  | _, _ => none

/-- Only texts are compared. -/
def equal : Value → Value → Option Value
  | .text first, .text second => some (.truth (first = second))
  | _, _ => none

def through : Value → Value → Option Value
  | .number first, .number last => some (.range first last)
  | _, _ => none

def not : Value → Option Value
  | .truth holds => some (.truth !holds)
  | _ => none

/-- The number as one of another type. What does not fit is cut off. -/
def cast (type : String) : Value → Option Value
  | .number n => (numberLimit? type).map fun limit => .number (n % limit)
  | _ => none

/-- The element at a position, which has to be there. -/
def index : Value → Value → Option Value
  | .bytes list, .number n => list[n]?.map fun byte => .number byte.toNat
  | .array elements, .number n => elements[n]?
  | _, _ => none

/-- What the methods of the language give. -/
def method : Value → String → Option Value
  | .bytes list, "len" => some (.number list.length)
  | .text content, "len" => some (.number content.utf8ByteSize)
  | .text content, "as_bytes" => some (.bytes (Text.bytes content))
  | _, _ => none

/-- What the methods with an argument give. -/
def methodOf : Value → String → Value → Option Value
  | .array elements, "get", .number n => some (ofOption elements[n]?)
  | .range first last, "contains", .number n => some (.truth (first ≤ n && n ≤ last))
  | _, _, _ => none

end Value

/-- The names in a pattern with the parts of the value that they stand for, if the value is of the
    pattern. -/
def bindings? : Pattern → Value → Option (List (String × Value))
  | .any, _ => some []
  | .number n, .number m => if m = n then some [] else none
  | .onwards least, .number m => if least ≤ m then some [] else none
  | .between least greatest, .number m => if least ≤ m ∧ m ≤ greatest then some [] else none
  | .named name, value => some [(name, value)]
  | .absent, .absent => some []
  | .present content, .present value => bindings? content value
  | .pair first second, .pair value other => do
      return (← bindings? first value) ++ (← bindings? second other)
  | _, _ => none

/-! ### Evaluation -/

/-- What names stand for. -/
structure Scope where
  value? : String → Option Value
  function? : String → Option (Value → Option Value)

namespace Scope

/-- Every program knows how to give nothing and how to give something. -/
def prelude : Scope where
  value? name := if name = "None" then some .absent else none
  function? name := if name = "Some" then some fun content => some (.present content) else none

/-- The scope in which a name stands for a value. -/
def bind (scope : Scope) (name : String) (value : Value) : Scope where
  value? other := if other = name then some value else scope.value? other
  function? := scope.function?

/-- The scope with a further function. -/
def bindFunction (scope : Scope) (name : String) (function : Value → Option Value) : Scope where
  value? := scope.value?
  function? other := if other = name then some function else scope.function? other

/-- The scope in which several names stand for values. -/
def bindAll (scope : Scope) (bindings : List (String × Value)) : Scope :=
  bindings.foldl (fun scope binding => scope.bind binding.1 binding.2) scope

end Scope

/-- The value of a term. -/
def Term.eval (scope : Scope) : Term → Option Value
  | .number n => some (.number n)
  | .named name => scope.value? name
  | .call function argument => do (← scope.function? function) (← argument.eval scope)
  | .method receiver name => do (← receiver.eval scope).method name
  | .methodOf receiver name argument => do
      (← receiver.eval scope).methodOf name (← argument.eval scope)
  | .index array position => do (← array.eval scope).index (← position.eval scope)
  | .cast term type => do (← term.eval scope).cast type
  | .borrow term => term.eval scope
  | .not term => do (← term.eval scope).not
  | .add first second => do (← first.eval scope).add (← second.eval scope)
  | .greater first second => do (← first.eval scope).greater (← second.eval scope)
  | .equal first second => do (← first.eval scope).equal (← second.eval scope)
  | .through first last => do (← first.eval scope).through (← last.eval scope)

namespace Scope

/-- Does the test hold? -/
def holds? (scope : Scope) (test : Term) : Option Bool :=
  match test.eval scope with
  | some (.truth holds) => some holds
  | _ => none

/-- The scope in which a variable is increased by the value of a term. -/
def increase (scope : Scope) (step : String × Term) : Option Scope := do
  let sum ← (← scope.value? step.1).add (← step.2.eval scope)
  return scope.bind step.1 sum

/-- The first case that a value is of and whose guard holds, with what the names in its pattern stand for.
    There has to be one. -/
def select (scope : Scope) (value : Value) : List Case → Option (List (String × Value) × Body)
  | [] => none
  | case :: others =>
      match bindings? case.pattern value with
      | none => scope.select value others
      | some bindings => do
          if ← case.guard.elim (some true) (scope.bindAll bindings).holds? then
            return (bindings, case.body)
          else
            scope.select value others

/-- The value that statements give. A case in which variables are increased has no names in its pattern. -/
def run (scope : Scope) : List Statement → Option Value
  | [] => none
  | .bind name value :: rest => do (scope.bind name (← value.eval scope)).run rest
  | .increase name amount :: rest => do (← scope.increase (name, amount)).run rest
  | .answerIf test answer :: rest => do
      if ← scope.holds? test then answer.eval scope else scope.run rest
  | .choose subject cases :: rest => do
      match ← scope.select (← subject.eval scope) cases with
      | ([], .increases steps) => (← steps.foldlM increase scope).run rest
      | (bindings, .value term) =>
          if rest.isEmpty then term.eval (scope.bindAll bindings) else none
      | _ => none
  | .value term :: rest => if rest.isEmpty then term.eval scope else none

end Scope

/-- The result of a function that stands in a scope. Argument and result have to be of the declared
    types. -/
def Function.apply (function : Function) (scope : Scope) (argument : Value) : Option Value :=
  if argument.hasType function.parameterType then
    ((scope.bind function.parameter argument).run function.statements).filter
      (·.hasType function.resultType)
  else
    none

namespace Scope

/-- Does the term give this number? -/
def gives (scope : Scope) (term : Term) (n : Nat) : Bool :=
  match term.eval scope with
  | some (.number m) => m = n
  | _ => false

/-- The scope behind an item. An array has to be as long as it is declared to be, and its numbers have to be
    of the declared type. -/
def declare (scope : Scope) : Item → Option Scope
  | .constant name type value => do
      let value ← value.eval scope
      if value.hasType (.number type) then return scope.bind name value else none
  | .numbers name type length cells =>
      if scope.gives length cells.length && cells.all fun n => (Value.number n).hasType (.number type) then
        some (scope.bind name (.array (cells.map .number)))
      else
        none
  | .rows name length rows =>
      if scope.gives length rows.length then
        some (scope.bind name (.array (rows.map .ofRow)))
      else
        none
  | .function function => some (scope.bindFunction function.name (function.apply scope))

/-- The scope behind the items of a file. -/
def ofItems (items : List Item) : Option Scope :=
  items.foldlM declare prelude

end Scope

/-- The result of a function of a file. -/
def call (items : List Item) (function : String) (argument : Value) : Option Value := do
  (← (← Scope.ofItems items).function? function) argument

end KeywordHash.SourceLanguage
