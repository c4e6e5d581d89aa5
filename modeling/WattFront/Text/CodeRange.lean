/-! # Ranges of code points

A property of characters is given as a table: a list of pairs, each the first and the last code
point of a run of characters that have the property.
-/

namespace WattFront

/-- A set of characters, as the first and last code points of its runs. -/
abbrev CodeRanges := List (Nat × Nat)

namespace CodeRanges

def has (ranges : CodeRanges) (c : Char) : Bool :=
  ranges.any fun run => run.1 ≤ c.toNat && c.toNat ≤ run.2

end CodeRanges

end WattFront
