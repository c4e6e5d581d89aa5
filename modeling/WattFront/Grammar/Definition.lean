import WattFront.Grammar.Statement

/-! # Items

The items of a program: definitions and imports, each opened by its keyword, and statements. At top
level there is no loop to leave and nothing to see of the effect of an expression, so these statements
are refused.
-/

namespace WattFront.Grammar

open Reading

/-- One import: a path, and a name for it if one is stated. -/
def singleImport : Reading Import := do
  let path ← expect .string
  let alias? ← ifAt .kwWith do
    let _ ← advance
    identifier
  pure ⟨path.value, alias?, ← spanFrom path.span.start⟩

/-- The imports in parentheses. There is at least one. -/
def importList : Reading (List Import) := do
  let _ ← advance
  if (← kind) = .closeParen then unexpected TokenKind.string.describe
  else commaList .closeParen singleImport

def imports : Reading Stmt := do
  let token ← expect .kwImport
  let list ←
    if (← kind) = .openParen then importList
    else do
      let only ← singleImport
      pure [only]
  pure (.imports list (← spanFrom token.span.start))

def traitNames : Reading (List Ident) := do
  if (← kind) = .identifier then separated identifier else pure []

/-- The traits of a type behind the word `impl`, which is a keyword in this place only. -/
def traits? : Reading (Option (List Ident)) := do
  if (← cursor).atWord "impl" then
    let _ ← advance
    some <$> traitNames
  else pure none

variable (inner : Inner)

def method : Reading Function := do
  if (← kind) = .kwFn then function inner else unexpected "`fn`"

def trait : Reading Trait := do
  let token ← expect .kwTrait
  let name ← identifier
  let _ ← expect .openCurly
  let methods ← many insideBraces (method inner)
  let _ ← expect .closeCurly
  pure ⟨name, methods, ← spanFrom token.span.start⟩

/-- A type. The parameter list, the traits and the body may be missing. -/
def type : Reading TypeDef := do
  let token ← expect .kwType
  let name ← identifier
  let parameters? ← ifAt .openParen parameters
  let traits? ← traits?
  let body? ← ifAt .openCurly inner.block
  pure ⟨name, parameters?, traits?, body?, ← spanFrom token.span.start⟩

/-- A unit. The body may be missing. -/
def unit : Reading UnitDef := do
  let token ← expect .kwUnit
  let name ← identifier
  let body? ← ifAt .openCurly inner.block
  pure ⟨name, body?, ← spanFrom token.span.start⟩

def itemOf : ItemForm → Reading Item
  | .function => (fun d => .definition (.function d)) <$> function inner
  | .trait => (fun d => .definition (.trait d)) <$> trait inner
  | .type => (fun d => .definition (.type d)) <$> type inner
  | .unit => (fun d => .definition (.unit d)) <$> unit inner
  | .imports => .statement <$> imports

def isExpression : Stmt → Bool
  | .expression .. => true
  | _ => false

/-- A statement at top level that starts with a chain. -/
def topLevelChain : Reading Stmt := do
  let first := (← cursor).current
  let statement ← chainStatement inner
  if isExpression statement then
    fail (.unexpectedToken "definition or assignment" first.found) first.span.start
  else pure statement

def topLevelStatement : Reading Stmt := do
  match ← kind with
  | .kwBreak | .kwContinue => unexpected "definition"
  | .identifier => topLevelChain inner
  | _ => statement inner

def item : Reading Item := do
  match (← kind).itemForm? with
  | some form => itemOf inner form
  | none => .statement <$> topLevelStatement inner

end WattFront.Grammar
