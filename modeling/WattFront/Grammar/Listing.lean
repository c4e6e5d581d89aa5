import WattFront.Grammar.Reading
import WattFront.Tree.Basic

/-! # Names and comma lists

A comma list stands between brackets: items with one comma between any two of them and none behind
the last. Parameters are a comma list of names in parentheses.
-/

namespace WattFront.Grammar

open Reading

def isComma (kind : TokenKind) : Bool :=
  kind = .comma

def identifier : Reading Ident := do
  let token ← expect .identifier
  pure ⟨token.value, token.span⟩

/-- One item or more, with a comma between any two of them. -/
def separated {α : Type} (item : Reading α) : Reading (List α) := do
  let first ← item
  let others ← many isComma do
    let _ ← advance
    item
  pure (first :: others)

/-- The items of a comma list whose opening bracket is consumed, and the closing bracket. -/
def commaList {α : Type} (close : TokenKind) (item : Reading α) : Reading (List α) := do
  let items ← if (← kind) = close then pure [] else separated item
  let _ ← expect close
  pure items

def parameters : Reading (List Ident) := do
  let _ ← expect .openParen
  commaList .closeParen identifier

end WattFront.Grammar
