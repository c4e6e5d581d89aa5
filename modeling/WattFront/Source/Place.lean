import WattFront.Source.Bytes
import WattFront.Source.Position

/-! # Places

A *place* is how far a reader has come in a text. Unlike a position it is not cut down to 32 bits:
a reader goes on beyond 2^32 bytes, and only the positions it shows wrap around.
-/

namespace WattFront

/-- A byte offset of any size into a named file. -/
structure Place where
  offset : Nat
  file : String
deriving DecidableEq, Repr

namespace Place

def origin (file : String) : Place :=
  ⟨0, file⟩

def advance (p : Place) (count : Nat) : Place :=
  { p with offset := p.offset + count }

/-- The position that stands for a place in tokens, trees and messages. -/
def position (p : Place) : Position :=
  .atByte p.offset p.file

def span (p : Place) (count : Nat) : Span :=
  ⟨p.position, (p.advance count).position⟩

/-- What is left of `text` from a place on, if the place is at a character or at the end. -/
def rest? (p : Place) (text : List Char) : Option (List Char) :=
  dropBytes? p.offset text

def atEnd (p : Place) (text : List Char) : Bool :=
  byteLength text ≤ p.offset

end Place

end WattFront
