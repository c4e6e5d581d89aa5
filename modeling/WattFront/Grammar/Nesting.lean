import WattFront.Grammar.Statement

/-! # Nesting

Expressions and blocks contain one another. Each of them opens a level of nesting, and the number of
levels is limited, so the grammar is built up from the deepest level: `nested n` reads expressions
and blocks that open at most `n` levels, and fails where one more would be needed.

A block that fails leaves its level open, whereas an expression that fails has closed its own.
-/

namespace WattFront.Grammar

open Reading

/-- The expressions and blocks that open at most the given number of levels. -/
def nested : Nat → Inner
  | 0 => ⟨fun _ => tooDeep, tooDeep⟩
  | levels + 1 =>
    { expr := expression (nested levels)
      block := block (nested levels) }

/-- Reads a construct with as many levels as there is room for at the cursor. -/
def atCursor {α : Type} (construct : Inner → Reading α) : Reading α :=
  fun c => construct (nested c.room) c

end WattFront.Grammar
