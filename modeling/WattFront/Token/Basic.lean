import WattFront.Source.Position
import WattFront.Token.Kind

/-! # Tokens

A token is a kind, the text it stands for and the span it covers. The value of a string token is
what its literal decodes to; every other token has its own spelling as value.
-/

namespace WattFront

/-- A token of Watt. -/
structure Token where
  kind : TokenKind
  value : String
  span : Span
deriving DecidableEq, Repr, Inhabited

namespace Token

def endOfInput (span : Span) : Token :=
  ⟨.endOfInput, "EOF", span⟩

/-- How a message shows the token that it found. -/
def found (t : Token) : String :=
  match t.kind with
  | .endOfInput => "end of input"
  | .string => "'" ++ t.value ++ "'"
  | _ => t.value

/-- How a token is listed: its kind, and the value where the kind does not settle it. -/
def text (t : Token) : String :=
  match t.kind with
  | .string | .identifier | .number => t.kind.name ++ " (" ++ t.value ++ ")"
  | _ => t.kind.name ++ " ()"

end Token

end WattFront
