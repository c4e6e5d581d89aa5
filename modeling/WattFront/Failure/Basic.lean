import WattFront.Source.Position
import WattFront.Text.Quoted

/-! # Failures

Reading a text stops at the first thing that is wrong with it. A `Failure` says what it was and
where. The wording is decided here and nowhere else:

* `Failure.Cause.message` — the full description;
* `Failure.Cause.tip?` — the hint that stands beside the name in a report.
-/

namespace WattFront

/-- What can be wrong with a text. -/
inductive Failure.Cause where
  /-- A character that starts no token. -/
  | unrecognisedToken (token : String)
  /-- A string literal without its closing quote on the same line. -/
  | unterminatedString
  /-- A block comment without its end. -/
  | unterminatedComment
  /-- A numeral outside the range of integers. -/
  | numberOutOfRange (token : String)
  /-- A token that cannot continue what stands before it. -/
  | unexpectedToken (expected found : String)
  /-- The text ends where more was needed. -/
  | unexpectedEnd (expected : String)
  /-- More expressions and blocks inside one another than are allowed. -/
  | nestingTooDeep (limit : Nat)
deriving DecidableEq, Repr, Inhabited

/-- What was wrong with a text, and where. -/
structure Failure where
  cause : Failure.Cause
  position : Position
deriving DecidableEq, Repr, Inhabited

namespace Failure

/-- The coarse classes of failures. -/
inductive Category where
  | lexical
  | unexpectedToken
  | unexpectedEnd
  | nestingTooDeep
deriving DecidableEq, Repr

namespace Cause

def category : Cause → Category
  | .unrecognisedToken _ => .lexical
  | .unterminatedString => .lexical
  | .unterminatedComment => .lexical
  | .numberOutOfRange _ => .lexical
  | .unexpectedToken _ _ => .unexpectedToken
  | .unexpectedEnd _ => .unexpectedEnd
  | .nestingTooDeep _ => .nestingTooDeep

def name : Cause → String
  | .unrecognisedToken _ => "UnrecognisedToken"
  | .unterminatedString => "UnterminatedString"
  | .unterminatedComment => "UnterminatedComment"
  | .numberOutOfRange _ => "NumberParseError"
  | .unexpectedToken _ _ => "UnexpectedToken"
  | .unexpectedEnd _ => "UnexpectedEndOfInput"
  | .nestingTooDeep _ => "NestingTooDeep"

def message : Cause → String
  | .unrecognisedToken token => "unrecognised token: " ++ quoted token
  | .unterminatedString => "unterminated string literal"
  | .unterminatedComment => "unterminated block comment"
  | .numberOutOfRange token => "error parsing number: " ++ quoted token
  | .unexpectedToken expected found =>
    "unexpected token: expected " ++ expected ++ ", found " ++ quoted found
  | .unexpectedEnd expected => "unexpected end of input: expected " ++ expected
  | .nestingTooDeep limit => "nesting deeper than " ++ toString limit ++ " levels"

/-- A hint at how to mend the failure, if there is one. -/
def tip? : Cause → Option String
  | .unrecognisedToken _ => none
  | .unterminatedString => some "string literals must be closed with `'` on the same line"
  | .unterminatedComment => some "block comment is missing its closing `*/`"
  | .numberOutOfRange token =>
    some ("Invalid number: `" ++ token ++ "`, is it above the integer limit?")
  | .unexpectedToken expected found => some ("expected " ++ expected ++ ", found `" ++ found ++ "`")
  | .unexpectedEnd expected => some ("expected " ++ expected ++ " before end of input")
  | .nestingTooDeep limit =>
    some ("expressions and blocks may nest at most " ++ toString limit ++ " levels deep")

end Cause

def message (f : Failure) : String :=
  f.cause.message ++ " at " ++ f.position.text

end Failure

end WattFront
