import WattFront.Grammar.Definition
import WattFront.Grammar.Nesting
import WattFront.Tree.Outline
import WattFront.Tree.Printer

/-! # Productions

Each production of the grammar can be run by itself, at any cursor. `Production` names them, and
`Production.parse` runs them with as much room for nesting as the cursor has. What they read is a
`Fragment` of a program.
-/

namespace WattFront

inductive Production where
  /-- An expression, read at a binding power. -/
  | expr (power : BindingPower)
  | literal
  | chain
  | signed
  | group
  | list
  | map
  | new
  | choice
  | lambda
  | anonymousFunction
  /-- An operator and its right operand, behind a left operand that is read already. -/
  | operation (power : BindingPower) (left : Expr)
  | arguments
  | parameters
  /-- A comma list of names, up to a closing token. -/
  | names (close : TokenKind)
  | statement
  | chainStatement
  | returnValue
  | whileLoop
  | conditional
  | forLoop
  | breakLoop
  | continueLoop
  | native
  | functionStatement
  | block
  | function
  | imports
  | item
  /-- An item of a form that occurs at top level only. -/
  | itemOf (form : ItemForm)

/-- A part of a program. -/
inductive Fragment where
  | expr (value : Expr)
  | stmt (value : Stmt)
  | block (value : Block)
  | function (value : Function)
  | item (value : Item)
  | exprs (values : List Expr)
  | idents (values : List Ident)

namespace Fragment

def text : Fragment → String
  | .expr e => e.text
  | .stmt s => s.text
  | .block b => b.text
  | .function f => f.text
  | .item i => i.text
  | .exprs es => " ".intercalate (es.map Expr.text)
  | .idents is => " ".intercalate (is.map Ident.name)

/-- The outlines of a fragment, one for each member of a list. -/
def outlines : Fragment → List Outline
  | .expr e => [e.outline "root"]
  | .stmt s => [s.outline "root"]
  | .block b => [b.outline "root"]
  | .function f => [f.outline "root"]
  | .item i => [i.outline]
  | .exprs es => Expr.outlines "root" es
  | .idents is => is.map (Ident.outline "root")

end Fragment

namespace Production

/-- What a production reads, given how expressions and blocks inside it are read. -/
def reading (inner : Grammar.Inner) : Production → Reading Fragment
  | .expr power => .expr <$> inner.expr power
  | .literal => .expr <$> Grammar.literal
  | .chain => .expr <$> Grammar.chain inner
  | .signed => .expr <$> Grammar.signed inner
  | .group => .expr <$> Grammar.group inner
  | .list => .expr <$> Grammar.list inner
  | .map => .expr <$> Grammar.map inner
  | .new => .expr <$> Grammar.new inner
  | .choice => .expr <$> Grammar.choice inner
  | .lambda => .expr <$> Grammar.lambda inner
  | .anonymousFunction => .expr <$> Grammar.anonymousFunction inner
  | .operation power left => .expr <$> Grammar.operation inner power left
  | .arguments => .exprs <$> Grammar.arguments inner
  | .parameters => .idents <$> Grammar.parameters
  | .names close => .idents <$> Grammar.commaList close Grammar.identifier
  | .statement => .stmt <$> Grammar.statement inner
  | .chainStatement => .stmt <$> Grammar.chainStatement inner
  | .returnValue => .stmt <$> Grammar.returnValue inner
  | .whileLoop => .stmt <$> Grammar.whileLoop inner
  | .conditional => .stmt <$> Grammar.conditional inner
  | .forLoop => .stmt <$> Grammar.forLoop inner
  | .breakLoop => .stmt <$> Grammar.breakLoop
  | .continueLoop => .stmt <$> Grammar.continueLoop
  | .native => .stmt <$> Grammar.native
  | .functionStatement => .stmt <$> Grammar.functionStatement inner
  | .block => .block <$> inner.block
  | .function => .function <$> Grammar.function inner
  | .imports => .stmt <$> Grammar.imports
  | .item => .item <$> Grammar.item inner
  | .itemOf form => .item <$> Grammar.itemOf inner form

def parse (p : Production) : Reading Fragment :=
  Grammar.atCursor fun inner => p.reading inner

end Production

end WattFront
