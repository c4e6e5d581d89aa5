import WattFront.Tree.Basic

/-! # Outlines of trees

An *outline* shows a tree of any type as a tree of one type: each node has a label, which says what
it is, and its children in the order of the text. A label holds

* the role of the node under its parent, and the kind of node;
* the span;
* what the node says by itself: a name, a value, an operator, or which optional parts it has.

What holds of all nodes of a tree can be stated on its outline once, for every type of node.
-/

namespace WattFront

/-- What a node says by itself, apart from its children. -/
inductive Detail where
  | plain
  /-- A name, a path, a string or the digits of a number. -/
  | text (text : String)
  /-- A truth value, or whether a call propagates failures. -/
  | flag (flag : Bool)
  /-- Which of the optional parts are there. -/
  | flags (flags : List Bool)
  /-- How many elements there are. -/
  | count (count : Nat)
  /-- The operator of a binary expression. -/
  | binary (operator : BinaryOp)
  | unary (operator : UnaryOp)
  | assign (operator : AssignOp)
deriving DecidableEq, Repr

/-- What a node is. -/
structure Label where
  role : String
  kind : String
  span : Span
  detail : Detail
deriving DecidableEq, Repr

/-- A tree of labels. -/
inductive Outline where
  | node (label : Label) (children : List Outline)

namespace Outline

mutual

/-- The labels of an outline with their depths, each node in front of its children, and other rows
behind them. -/
def rowsOnto (others : List (Nat × Label)) (depth : Nat) : Outline → List (Nat × Label)
  | .node label children => (depth, label) :: rowsAllOnto others (depth + 1) children

def rowsAllOnto (others : List (Nat × Label)) (depth : Nat) : List Outline → List (Nat × Label)
  | [] => others
  | o :: os => o.rowsOnto (rowsAllOnto others depth os) depth

end

/-- The labels of several outlines with their depths, each node in front of its children. -/
def rowsAll (outlines : List Outline) : List (Nat × Label) :=
  rowsAllOnto [] 0 outlines

end Outline

def Ident.outline (role : String) (i : Ident) : Outline :=
  .node ⟨role, "ident", i.span, .text i.name⟩ []

def outlineParameters (parameters : List Ident) : List Outline :=
  parameters.map (Ident.outline "param")

def Import.outline (i : Import) : Outline :=
  .node ⟨"import", "single_import", i.span, .text i.path⟩ (i.alias?.toList.map (Ident.outline "alias"))

mutual

/-- The outline of an expression. -/
def Expr.outline (role : String) : Expr → Outline
  | .number value s => .node ⟨role, "number", s, .text (toString value)⟩ []
  | .bool value s => .node ⟨role, "bool", s, .flag value⟩ []
  | .string value s => .node ⟨role, "string", s, .text value⟩ []
  | .symbol name s => .node ⟨role, "symbol", s, .text name⟩ []
  | .list elements s =>
    .node ⟨role, "list", s, .count elements.length⟩ (Expr.outlines "element" elements)
  | .map pairs s => .node ⟨role, "map", s, .count pairs.length⟩ (Pair.outlines pairs)
  | .member object property s =>
    .node ⟨role, "member", s, .plain⟩ [object.outline "object", property.outline "property"]
  | .call callee arguments propagate s =>
    .node ⟨role, "call", s, .flag propagate⟩
      (callee.outline "callee" :: Expr.outlines "argument" arguments)
  | .binary operator left right s =>
    .node ⟨role, "binary", s, .binary operator⟩ [left.outline "left", right.outline "right"]
  | .unary operator operand s =>
    .node ⟨role, "unary", s, .unary operator⟩ [operand.outline "operand"]
  | .new type arguments s =>
    .node ⟨role, "new", s, .plain⟩ (type.outline "type" :: Expr.outlines "argument" arguments)
  | .choice scrutinee cases fallback? s =>
    .node ⟨role, "match", s, .plain⟩
      (scrutinee.outline "scrutinee" :: (Arm.outlines cases ++ Arm.outline? fallback?))
  | .lambda parameters body s =>
    .node ⟨role, "lambda", s, .plain⟩ (outlineParameters parameters ++ [body.outline "body"])
  | .function parameters body s =>
    .node ⟨role, "anonymous_fn", s, .plain⟩ (outlineParameters parameters ++ [body.outline "body"])

def Expr.outlines (role : String) : List Expr → List Outline
  | [] => []
  | e :: es => e.outline role :: Expr.outlines role es

def Pair.outline : Pair → Outline
  | ⟨key, value, s⟩ =>
    .node ⟨"pair", "pair", s, .plain⟩ [key.outline "key", value.outline "value"]

def Pair.outlines : List Pair → List Outline
  | [] => []
  | p :: ps => p.outline :: Pair.outlines ps

def Arm.outline (role : String) : Arm → Outline
  | ⟨pattern, body, s⟩ =>
    .node ⟨role, "arm", s, .plain⟩ [pattern.outline "pattern", body.outline]

def Arm.outlines : List Arm → List Outline
  | [] => []
  | a :: arms => a.outline "case" :: Arm.outlines arms

def Arm.outline? : Option Arm → List Outline
  | none => []
  | some a => [a.outline "default"]

def ArmBody.outline : ArmBody → Outline
  | .expr value => value.outline "body"
  | .block body => body.outline "body"

def Block.outline (role : String) : Block → Outline
  | ⟨statements, s⟩ => .node ⟨role, "block", s, .plain⟩ (Stmt.outlines statements)

def Block.outline? (role : String) : Option Block → List Outline
  | none => []
  | some body => [body.outline role]

def Stmt.outline (role : String) : Stmt → Outline
  | .returnValue value s => .node ⟨role, "return", s, .plain⟩ [value.outline "value"]
  | .whileLoop condition body s =>
    .node ⟨role, "while", s, .plain⟩ [condition.outline "condition", body.outline "body"]
  | .conditional condition body elifs otherwise? s =>
    .node ⟨role, "if", s, .plain⟩
      (condition.outline "condition" :: body.outline "then"
        :: (Branch.outlines elifs ++ Block.outline? "else" otherwise?))
  | .forLoop element iterable body s =>
    .node ⟨role, "for", s, .plain⟩
      [element.outline "variable", iterable.outline "iterable", body.outline "body"]
  | .breakLoop s => .node ⟨role, "break", s, .plain⟩ []
  | .continueLoop s => .node ⟨role, "continue", s, .plain⟩ []
  | .expression value s => .node ⟨role, "expression", s, .plain⟩ [value.outline "value"]
  | .native name symbol s => .node ⟨role, "native", s, .text symbol⟩ [name.outline "name"]
  | .imports list s => .node ⟨role, "import", s, .plain⟩ (list.map Import.outline)
  | .assign target operator value s =>
    .node ⟨role, "assign", s, .assign operator⟩ [target.outline "target", value.outline "value"]
  | .define target value s =>
    .node ⟨role, "define", s, .plain⟩ [target.outline "target", value.outline "value"]
  | .function definition s => .node ⟨role, "fn", s, .plain⟩ [definition.outline "function"]

def Stmt.outlines : List Stmt → List Outline
  | [] => []
  | s :: ss => s.outline "stmt" :: Stmt.outlines ss

def Branch.outline : Branch → Outline
  | ⟨condition, body, s⟩ =>
    .node ⟨"elif", "elif", s, .plain⟩ [condition.outline "condition", body.outline "body"]

def Branch.outlines : List Branch → List Outline
  | [] => []
  | b :: bs => b.outline :: Branch.outlines bs

def Function.outline (role : String) : Function → Outline
  | ⟨name, parameters?, body?, s⟩ =>
    .node ⟨role, "function", s, .flags [parameters?.isSome, body?.isSome]⟩
      (name.outline "name"
        :: (outlineParameters (parameters?.getD []) ++ Block.outline? "body" body?))

end

def Definition.outline (role : String) : Definition → Outline
  | .function d => d.outline role
  | .trait d =>
    .node ⟨role, "trait", d.span, .plain⟩
      (d.name.outline "name" :: d.methods.map (Function.outline "method"))
  | .type d =>
    .node ⟨role, "type", d.span, .flags [d.parameters?.isSome, d.traits?.isSome, d.body?.isSome]⟩
      (d.name.outline "name"
        :: (outlineParameters (d.parameters?.getD [])
          ++ (d.traits?.getD []).map (Ident.outline "trait")
          ++ Block.outline? "body" d.body?))
  | .unit d =>
    .node ⟨role, "unit", d.span, .plain⟩ (d.name.outline "name" :: Block.outline? "body" d.body?)

def Item.outline : Item → Outline
  | .definition d => d.outline "item"
  | .statement s => s.outline "item"

def Program.outline (p : Program) : Outline :=
  .node ⟨"root", "program", p.span, .plain⟩ (p.items.map Item.outline)

end WattFront
