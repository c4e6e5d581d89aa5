import WattFront.Source.Bytes

/-! # Lines

A line feed ends the line it stands on. What follows the last line feed is a line too, even if it
is empty, so every text has at least one line and every byte offset lies on exactly one. Offsets
beyond the text count as its end.
-/

namespace WattFront

/-- The first line of a text, with the line feed that ends it if there is one. -/
def firstLine (text : List Char) : List Char :=
  text.takeWhile (· ≠ '\n') ++ (text.dropWhile (· ≠ '\n')).take 1

/-- Where an offset lies: the number of its line, counted from one, the text of that line with its
line feed, and the number of bytes in front of the offset on that line. -/
structure LinePoint where
  number : Nat
  text : List Char
  column : Nat
deriving DecidableEq, Repr

namespace LinePoint

/-- Walks `offset` bytes into a text. On the way it keeps the number of the current line, the text
from the beginning of that line, and the bytes already passed on it. -/
def walk (number : Nat) (line : List Char) (column : Nat) : List Char → Nat → LinePoint
  | [], _ => ⟨number, firstLine line, column⟩
  | c :: cs, offset =>
    if offset < c.utf8Size then ⟨number, firstLine line, column + offset⟩
    else if c = '\n' then walk (number + 1) cs 0 cs (offset - c.utf8Size)
    else walk number line (column + c.utf8Size) cs (offset - c.utf8Size)

def find (source : List Char) (offset : Nat) : LinePoint :=
  walk 1 source 0 source offset

end LinePoint

end WattFront
