/-! # Kinds of tokens

The vocabulary of Watt: number, string and identifier tokens, which carry a payload, and the fixed
tokens, each of which has one spelling. Fixed tokens are *marks* (operators and brackets) and
*keywords*. `endOfInput` closes every token list.

* `TokenKind.lexeme` — the spelling of a fixed token, or a word for the others;
* `TokenKind.ofWord?` — the keyword with a given spelling;
* `TokenKind.ofPair?`, `TokenKind.ofSign?` — the mark of two characters, and that of one.
-/

namespace WattFront

/-- What a token is, apart from its text. -/
inductive TokenKind where
  | endOfInput
  | number
  | string
  | identifier
  | openBracket
  | closeBracket
  | openCurly
  | closeCurly
  | openParen
  | closeParen
  | assignment
  | define
  | equals
  | not
  | notEquals
  | less
  | lessEquals
  | greater
  | greaterEquals
  | dot
  | dotDot
  | colon
  | question
  | comma
  | arrow
  | plusEquals
  | minusEquals
  | slashEquals
  | starEquals
  | plus
  | dash
  | slash
  | star
  | percent
  | kwFn
  | kwType
  | kwUnit
  | kwTrait
  | kwReturn
  | kwWhile
  | kwIf
  | kwElif
  | kwElse
  | kwFor
  | kwIn
  | kwBreak
  | kwContinue
  | kwNative
  | kwImport
  | kwWith
  | kwNew
  | kwMatch
  | kwCase
  | kwDefault
  | kwLambda
  | kwTrue
  | kwFalse
  | kwAnd
  | kwOr
  | kwImpls
deriving DecidableEq, Repr, Inhabited

namespace TokenKind

def name : TokenKind → String
  | .endOfInput => "EOF"
  | .number => "Number"
  | .string => "String"
  | .identifier => "Identifier"
  | .openBracket => "OpenBracket"
  | .closeBracket => "CloseBracket"
  | .openCurly => "OpenCurly"
  | .closeCurly => "CloseCurly"
  | .openParen => "OpenParen"
  | .closeParen => "CloseParen"
  | .assignment => "Assignment"
  | .define => "Define"
  | .equals => "Equals"
  | .not => "Not"
  | .notEquals => "NotEquals"
  | .less => "Less"
  | .lessEquals => "LessEquals"
  | .greater => "Greater"
  | .greaterEquals => "GreaterEquals"
  | .dot => "Dot"
  | .dotDot => "DotDot"
  | .colon => "Colon"
  | .question => "Question"
  | .comma => "Comma"
  | .arrow => "Arrow"
  | .plusEquals => "PlusEquals"
  | .minusEquals => "MinusEquals"
  | .slashEquals => "SlashEquals"
  | .starEquals => "StarEquals"
  | .plus => "Plus"
  | .dash => "Dash"
  | .slash => "Slash"
  | .star => "Star"
  | .percent => "Percent"
  | .kwFn => "Fn"
  | .kwType => "Type"
  | .kwUnit => "Unit"
  | .kwTrait => "Trait"
  | .kwReturn => "Return"
  | .kwWhile => "While"
  | .kwIf => "If"
  | .kwElif => "Elif"
  | .kwElse => "Else"
  | .kwFor => "For"
  | .kwIn => "In"
  | .kwBreak => "Break"
  | .kwContinue => "Continue"
  | .kwNative => "Native"
  | .kwImport => "Import"
  | .kwWith => "With"
  | .kwNew => "New"
  | .kwMatch => "Match"
  | .kwCase => "Case"
  | .kwDefault => "Default"
  | .kwLambda => "Lambda"
  | .kwTrue => "True"
  | .kwFalse => "False"
  | .kwAnd => "And"
  | .kwOr => "Or"
  | .kwImpls => "Impls"

/-- The spelling of a fixed token. The end of input and the tokens with a payload have no spelling
of their own and are named instead. -/
def lexeme : TokenKind → String
  | .endOfInput => "EOF"
  | .number => "number"
  | .string => "string"
  | .identifier => "identifier"
  | .openBracket => "["
  | .closeBracket => "]"
  | .openCurly => "\x7b"
  | .closeCurly => "\x7d"
  | .openParen => "("
  | .closeParen => ")"
  | .assignment => "="
  | .define => ":="
  | .equals => "=="
  | .not => "!"
  | .notEquals => "!="
  | .less => "<"
  | .lessEquals => "<="
  | .greater => ">"
  | .greaterEquals => ">="
  | .dot => "."
  | .dotDot => ".."
  | .colon => ":"
  | .question => "?"
  | .comma => ","
  | .arrow => "->"
  | .plusEquals => "+="
  | .minusEquals => "-="
  | .slashEquals => "/="
  | .starEquals => "*="
  | .plus => "+"
  | .dash => "-"
  | .slash => "/"
  | .star => "*"
  | .percent => "%"
  | .kwFn => "fn"
  | .kwType => "type"
  | .kwUnit => "unit"
  | .kwTrait => "trait"
  | .kwReturn => "return"
  | .kwWhile => "while"
  | .kwIf => "if"
  | .kwElif => "elif"
  | .kwElse => "else"
  | .kwFor => "for"
  | .kwIn => "in"
  | .kwBreak => "break"
  | .kwContinue => "continue"
  | .kwNative => "native"
  | .kwImport => "import"
  | .kwWith => "with"
  | .kwNew => "new"
  | .kwMatch => "match"
  | .kwCase => "case"
  | .kwDefault => "default"
  | .kwLambda => "lambda"
  | .kwTrue => "true"
  | .kwFalse => "false"
  | .kwAnd => "and"
  | .kwOr => "or"
  | .kwImpls => "impls"

/-- How a message names the token it expected: a fixed token by its spelling in backticks. -/
def describe : TokenKind → String
  | .endOfInput => "end of input"
  | .number => "number"
  | .string => "string"
  | .identifier => "identifier"
  | kind => "`" ++ kind.lexeme ++ "`"

def keywords : List TokenKind :=
  [.kwFn, .kwType, .kwUnit, .kwTrait, .kwReturn, .kwWhile, .kwIf, .kwElif, .kwElse, .kwFor, .kwIn,
    .kwBreak, .kwContinue, .kwNative, .kwImport, .kwWith, .kwNew, .kwMatch, .kwCase, .kwDefault,
    .kwLambda, .kwTrue, .kwFalse, .kwAnd, .kwOr, .kwImpls]

/-- The keyword that a word spells, if the word is reserved. -/
def ofWord? (word : String) : Option TokenKind :=
  keywords.find? fun kind => kind.lexeme = word

def pairs : List TokenKind :=
  [.equals, .notEquals, .lessEquals, .greaterEquals, .define, .arrow, .dotDot, .plusEquals,
    .minusEquals, .starEquals, .slashEquals]

def signs : List TokenKind :=
  [.openBracket, .closeBracket, .openCurly, .closeCurly, .openParen, .closeParen, .assignment, .not,
    .less, .greater, .dot, .colon, .question, .comma, .plus, .dash, .slash, .star, .percent]

def ofPair? : Char → Char → Option TokenKind
  | '=', '=' => some .equals
  | '!', '=' => some .notEquals
  | '<', '=' => some .lessEquals
  | '>', '=' => some .greaterEquals
  | ':', '=' => some .define
  | '-', '>' => some .arrow
  | '.', '.' => some .dotDot
  | '+', '=' => some .plusEquals
  | '-', '=' => some .minusEquals
  | '*', '=' => some .starEquals
  | '/', '=' => some .slashEquals
  | _, _ => none

def ofSign? : Char → Option TokenKind
  | '[' => some .openBracket
  | ']' => some .closeBracket
  | '\x7b' => some .openCurly
  | '\x7d' => some .closeCurly
  | '(' => some .openParen
  | ')' => some .closeParen
  | '=' => some .assignment
  | '!' => some .not
  | '<' => some .less
  | '>' => some .greater
  | '.' => some .dot
  | ':' => some .colon
  | '?' => some .question
  | ',' => some .comma
  | '+' => some .plus
  | '-' => some .dash
  | '/' => some .slash
  | '*' => some .star
  | '%' => some .percent
  | _ => none

end TokenKind

end WattFront
