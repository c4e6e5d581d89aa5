import WattFront.Failure.Basic
import WattFront.Token.Basic

/-! # Cursors

A cursor is a place in a token list: the tokens behind it, latest first, and the tokens ahead of it,
of which the first is the *current* one. Past the last token there is nothing but the end of input,
and the cursor never moves over an `endOfInput` token, so tokens behind the first one are never read.

A cursor also counts how many expressions and blocks are open around it. At most `maxNesting` may be.
-/

namespace WattFront

/-- How many expressions and blocks may be open inside one another. -/
def maxNesting : Nat := 128

/-- A place in a token list. -/
structure Cursor where
  /-- The tokens that have been consumed, latest first. -/
  behind : List Token
  /-- The tokens that have not been consumed. -/
  ahead : List Token
  /-- The span of the end of input, for a list that does not state it. -/
  ending : Span
  /-- The file that is being read. -/
  file : String
  /-- The number of open expressions and blocks. -/
  depth : Nat
deriving DecidableEq, Repr

namespace Cursor

/-- The cursor in front of a token list. Unless the list states it, the end of input is where its
last token stops, or at the beginning of the file if there is no token. -/
def start (tokens : List Token) (file : String) : Cursor where
  behind := []
  ahead := tokens
  ending := .empty (match tokens.getLast? with
    | some token => token.span.stop
    | none => .origin file)
  file := file
  depth := 0

def current (c : Cursor) : Token :=
  c.ahead.headD (.endOfInput c.ending)

def kind (c : Cursor) : TokenKind :=
  c.current.kind

/-- The kind of the token `count` tokens behind the current one, whatever stands between them. -/
def peek (c : Cursor) (count : Nat) : TokenKind :=
  (c.ahead[count]?.map Token.kind).getD .endOfInput

def here (c : Cursor) : Position :=
  c.current.span.start

/-- The cursor behind the current token; at the end of input it stays where it is. -/
def next (c : Cursor) : Cursor :=
  match c.ahead with
  | [] => c
  | token :: tokens =>
    if token.kind = .endOfInput then c
    else { c with behind := token :: c.behind, ahead := tokens }

def hasTokens (c : Cursor) : Bool :=
  c.kind ≠ .endOfInput

/-- Whether the current token is the identifier `word`, which is a keyword in this place only. -/
def atWord (c : Cursor) (word : String) : Bool :=
  c.kind = .identifier && c.current.value = word

def lastStop (c : Cursor) : Position :=
  match c.behind with
  | token :: _ => token.span.stop
  | [] => .origin c.file

/-- The span from a position to the stop of the latest consumed token. -/
def spanFrom (c : Cursor) (start : Position) : Span :=
  ⟨start, c.lastStop⟩

def unexpected (c : Cursor) (expected : String) : Failure where
  cause :=
    if c.kind = .endOfInput then .unexpectedEnd expected
    else .unexpectedToken expected c.current.found
  position := c.here

def tooDeep (c : Cursor) : Failure where
  cause := .nestingTooDeep maxNesting
  position := c.here

def room (c : Cursor) : Nat :=
  maxNesting - c.depth

/-- The cursor with one more level open, if there is room for it. -/
def enter? (c : Cursor) : Option Cursor :=
  if c.depth < maxNesting then some { c with depth := c.depth + 1 } else none

/-- The cursor with one level less open; without an open level it stays as it is. -/
def leave (c : Cursor) : Cursor :=
  { c with depth := c.depth - 1 }

end Cursor

end WattFront
