/-
Module: KeywordHash.Keyword.Bundled
Layer: Keyword
Purpose: A keyword set that comes with the library, to show what a table looks like.
Imports: none
Trusted boundary: none
Main exports: bundledDefinitions
Open obligations: none
-/

namespace KeywordHash

/-- The lines of the definitions of a build script language's keywords. -/
def bundledLines : List String :=
  ["# Reserved words of the build script language.",
    "#",
    "# <keyword> <payload>",
    "# The payload is emitted verbatim as the token kind for the keyword.",
    "",
    "and         TokenKind::And",
    "as          TokenKind::As",
    "assert      TokenKind::Assert",
    "break       TokenKind::Break",
    "case        TokenKind::Case",
    "class       TokenKind::Class",
    "const       TokenKind::Const",
    "continue    TokenKind::Continue",
    "def         TokenKind::Def",
    "default     TokenKind::Default",
    "defined     TokenKind::Defined",
    "deinit      TokenKind::Deinit",
    "dependsOn   TokenKind::DependsOn",
    "do          TokenKind::Do",
    "doFirst     TokenKind::DoFirst",
    "doLast      TokenKind::DoLast",
    "else        TokenKind::Else",
    "except      TokenKind::Except",
    "export      TokenKind::Export",
    "extends     TokenKind::Extends",
    "false       TokenKind::False",
    "finally     TokenKind::Finally",
    "for         TokenKind::For",
    "from        TokenKind::From",
    "get         TokenKind::Get",
    "if          TokenKind::If",
    "import      TokenKind::Import",
    "in          TokenKind::In",
    "init        TokenKind::Init",
    "inputs      TokenKind::Inputs",
    "is          TokenKind::Is",
    "match       TokenKind::Match",
    "none        TokenKind::None",
    "not         TokenKind::Not",
    "operator    TokenKind::Operator",
    "or          TokenKind::Or",
    "outputs     TokenKind::Outputs",
    "pass        TokenKind::Pass",
    "raise       TokenKind::Raise",
    "return      TokenKind::Return",
    "self        TokenKind::SelfKw",
    "set         TokenKind::Set",
    "static      TokenKind::Static",
    "super       TokenKind::Super",
    "task        TokenKind::Task",
    "true        TokenKind::True",
    "try         TokenKind::Try",
    "var         TokenKind::Var",
    "while       TokenKind::While",
    "with        TokenKind::With"]

/-- The definitions of a build script language's keywords. -/
def bundledDefinitions : String :=
  String.join (bundledLines.map (· ++ "\n"))

end KeywordHash
