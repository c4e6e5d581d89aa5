import WattFront.Grammar.Listing
import WattFront.Grammar.Opening
import WattFront.Token.Numeral

/-! # Expressions

An expression is an operand, followed by binary operators with further operands. How far it reaches
depends on the binding power that it is read at: it takes in the operators that bind tighter.

An operand and the block of a function contain expressions again. The productions of this file do not
read those themselves. They are given an `Inner` grammar, which reads expressions and blocks one level
of nesting deeper, so that no production calls itself.
-/

namespace WattFront.Grammar

open Reading

/-- How the expressions and blocks inside a construct are read. -/
structure Inner where
  expr : BindingPower → Reading Expr
  block : Reading Block

def badNumeral (token : Token) : Reading Expr :=
  fail (.numberOutOfRange token.value) token.span.start

def literal : Reading Expr := do
  let token := (← cursor).current
  match token.kind with
  | .number =>
    match Numeral.value? token.value.toList with
    | some value =>
      let _ ← advance
      pure (.number value token.span)
    | none => badNumeral token
  | .string =>
    let _ ← advance
    pure (.string token.value token.span)
  | .kwTrue =>
    let _ ← advance
    pure (.bool true token.span)
  | .kwFalse =>
    let _ ← advance
    pure (.bool false token.span)
  | _ => unexpected "literal"

variable (inner : Inner)

def arguments : Reading (List Expr) := do
  let _ ← expect .openParen
  commaList .closeParen (inner.expr .lowest)

def opensLink (kind : TokenKind) : Bool :=
  kind = .dot || kind = .openParen

/-- One link of a chain that started at `start`: a property, or a call with the mark for handing on
failures. -/
def link (start : Position) (object : Expr) : Reading Expr := do
  if ← accept .dot then
    let property ← identifier
    pure (.member object property (← spanFrom start))
  else
    let arguments ← arguments inner
    let propagate ← accept .question
    pure (.call object arguments propagate (← spanFrom start))

def chain : Reading Expr := do
  let start ← here
  let name ← identifier
  whileAt opensLink (link inner start) (.symbol name.name name.span)

def signed : Reading Expr := do
  let token ← advance
  let operand ← inner.expr .unary
  let operator := if token.kind = .not then UnaryOp.not else UnaryOp.negate
  pure (.unary operator operand (← spanFrom token.span.start))

/-- An expression in parentheses, which leave no trace in the tree. -/
def group : Reading Expr := do
  let _ ← expect .openParen
  let e ← inner.expr .lowest
  let _ ← expect .closeParen
  pure e

def list : Reading Expr := do
  let token ← expect .openBracket
  let elements ← commaList .closeBracket (inner.expr .lowest)
  pure (.list elements (← spanFrom token.span.start))

def pair : Reading Pair := do
  let key ← inner.expr .lowest
  let _ ← expect .colon
  let value ← inner.expr .lowest
  pure ⟨key, value, key.span.through value.span⟩

/-- A map. Where an expression may stand, a brace always opens a map. -/
def map : Reading Expr := do
  let token ← expect .openCurly
  let pairs ← commaList .closeCurly (pair inner)
  pure (.map pairs (← spanFrom token.span.start))

def new : Reading Expr := do
  let token ← expect .kwNew
  let type ← identifier
  let arguments ← arguments inner
  pure (.new type arguments (← spanFrom token.span.start))

/-- The body of an arm: an arrow and an expression, or a block. -/
def armBody : Reading ArmBody := do
  match ← kind with
  | .arrow =>
    let _ ← advance
    .expr <$> inner.expr .lowest
  | .openCurly => .block <$> inner.block
  | _ => unexpected "`->` or block"

def arm : Reading Arm := do
  let token ← advance
  let pattern ← inner.expr .lowest
  let body ← armBody inner
  pure ⟨pattern, body, ← spanFrom token.span.start⟩

def opensCase (kind : TokenKind) : Bool :=
  kind = .kwCase

/-- A choice between cases. -/
def choice : Reading Expr := do
  let token ← expect .kwMatch
  let scrutinee ← inner.expr .lowest
  let cases ← many opensCase (arm inner)
  let fallback? ← ifAt .kwDefault (arm inner)
  pure (.choice scrutinee cases fallback? (← spanFrom token.span.start))

def lambda : Reading Expr := do
  let token ← expect .kwLambda
  let parameters ← parameters
  let _ ← expect .arrow
  let body ← inner.expr .lowest
  pure (.lambda parameters body (← spanFrom token.span.start))

def anonymousFunction : Reading Expr := do
  let token ← expect .kwFn
  let parameters ← parameters
  let body ← inner.block
  pure (.function parameters body (← spanFrom token.span.start))

def operandOf : OperandForm → Reading Expr
  | .literal => literal
  | .chain => chain inner
  | .list => list inner
  | .map => map inner
  | .signed => signed inner
  | .group => group inner
  | .new => new inner
  | .choice => choice inner
  | .lambda => lambda inner
  | .function => anonymousFunction inner

def operand : Reading Expr := do
  match (← kind).operandForm? with
  | some form => operandOf inner form
  | none => unexpected "expression"

/-- A binary operator and its right operand, which is read at the given binding power. -/
def operation (power : BindingPower) (left : Expr) : Reading Expr := do
  let token ← advance
  match BinaryOp.ofToken? token.kind with
  | some operator =>
    let right ← inner.expr power
    pure (.binary operator left right (left.span.through right.span))
  | none => fail (.unexpectedToken "binary operator" token.found) token.span.start

def infixOf : InfixForm → BindingPower → Expr → Reading Expr
  | .binary => operation inner

def bindsTighter (power : BindingPower) (kind : TokenKind) : Bool :=
  power.rank < kind.bindingPower.rank

/-- The operator that is the current token and its right operand. The right operand takes in only
what binds tighter than this operator, so operators of one power are taken from the left. -/
def nextOperation (left : Expr) : Reading Expr := do
  let kind ← kind
  match kind.infixForm? with
  | some form => infixOf inner form kind.bindingPower left
  | none => unexpected "operator"

/-- An operand, and the operators that bind tighter than the given power with their operands. -/
def operations (power : BindingPower) : Reading Expr := do
  let first ← operand inner
  whileAt (bindsTighter power) (nextOperation inner) first

/-- An expression. It opens a level of nesting and closes it in any case. -/
def expression (power : BindingPower) : Reading Expr :=
  within (operations inner power)

end WattFront.Grammar
