/-! # Positions and spans

A *position* is a byte offset into a named file. Offsets are 32 bits wide: `Position.atByte` cuts a
longer one down modulo 2^32. A *span* is a pair of positions, each with a file of its own, so a span
may start in one file and stop in another.
-/

namespace WattFront

/-- A byte offset into a named file. -/
structure Position where
  offset : UInt32
  file : String
deriving DecidableEq, Repr, Inhabited

namespace Position

/-- The position `count` bytes into `file`, modulo 2^32. -/
def atByte (count : Nat) (file : String) : Position :=
  ⟨UInt32.ofNat count, file⟩

def origin (file : String) : Position :=
  ⟨0, file⟩

/-- The written form of a position: the file, a colon and the offset in decimal digits. -/
def text (p : Position) : String :=
  p.file ++ ":" ++ toString p.offset.toNat

end Position

/-- The stretch of text from `start` up to, and without, `stop`. -/
structure Span where
  start : Position
  stop : Position
deriving DecidableEq, Repr, Inhabited

namespace Span

def empty (p : Position) : Span :=
  ⟨p, p⟩

def through (a b : Span) : Span :=
  ⟨a.start, b.stop⟩

@[simp] theorem through_start (a b : Span) : (a.through b).start = a.start := rfl

@[simp] theorem through_stop (a b : Span) : (a.through b).stop = b.stop := rfl

end Span

end WattFront
