import WattFront.Source.Place
import WattFront.Token.Basic
import WattFront.Token.Lexeme

/-! # The tokens of a source text

`tokenize` cuts a source text into lexemes, one after the other, and keeps the tokens among them,
each with the span of its own spelling. The list ends with the end of input. The first lexeme that
cannot be read is the failure of the whole text, at the place where it would have started.
-/

namespace WattFront

/-- The token that a lexeme at a place spells, if it is not skipped. -/
def Lexeme.tokenAt? (l : Lexeme) (place : Place) : Option Token :=
  l.token?.map fun (kind, value) => ⟨kind, value, place.span (byteLength l.text)⟩

/-- Reads the rest of a text, which starts at `place`. `read` holds the tokens in front of it, latest
first. -/
def tokenizeFrom (place : Place) (read : List Token) (text : List Char) :
    Except Failure (List Token) :=
  match text with
  | [] => .ok (Token.endOfInput (place.span 0) :: read).reverse
  | c :: cs =>
    match _h : Lexeme.first c cs with
    | .error cause => .error ⟨cause, place.position⟩
    | .ok l =>
      tokenizeFrom (place.advance (byteLength l.text)) ((l.tokenAt? place).toList ++ read) l.rest
termination_by text.length
decreasing_by exact Lexeme.rest_lt_of_first ‹_›

def tokenize (source : List Char) (file : String) : Except Failure (List Token) :=
  tokenizeFrom (.origin file) [] source

end WattFront
