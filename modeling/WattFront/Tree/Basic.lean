import WattFront.Source.Position
import WattFront.Tree.Operator

/-! # Syntax trees

The trees of Watt programs. Expressions, blocks and statements contain one another, so their types
are declared together; items and programs stand on top. Every node knows the span of the text it was
read from.

* `Expr`, with `Pair` (of a map) and `Arm` (of a match);
* `Block` and `Stmt`, with `Branch` (an `elif`) and `Function`;
* `Trait`, `TypeDef`, `UnitDef` and `Definition`;
* `Item` and `Program`.
-/

namespace WattFront

/-- A name, where it stands in the text. -/
structure Ident where
  name : String
  span : Span
deriving DecidableEq, Repr, Inhabited

/-- One import: the path of what is imported, and the name it gets if that is stated. -/
structure Import where
  path : String
  alias? : Option Ident
  span : Span
deriving DecidableEq, Repr

mutual

inductive Expr where
  | number (value : Int) (span : Span)
  | bool (value : Bool) (span : Span)
  /-- A string, decoded. -/
  | string (value : String) (span : Span)
  | symbol (name : String) (span : Span)
  | list (elements : List Expr) (span : Span)
  | map (pairs : List Pair) (span : Span)
  /-- A property of an object, behind a dot. -/
  | member (object : Expr) (property : Ident) (span : Span)
  /-- A call; a call that propagates hands a failure of the callee on to the caller. -/
  | call (callee : Expr) (arguments : List Expr) (propagate : Bool) (span : Span)
  | binary (operator : BinaryOp) (left right : Expr) (span : Span)
  | unary (operator : UnaryOp) (operand : Expr) (span : Span)
  /-- A new value of a type. -/
  | new (type : Ident) (arguments : List Expr) (span : Span)
  /-- A choice between cases, with one for the case that none fits. -/
  | choice (scrutinee : Expr) (cases : List Arm) (fallback? : Option Arm) (span : Span)
  /-- A function whose body is an expression. -/
  | lambda (parameters : List Ident) (body : Expr) (span : Span)
  /-- A function without a name whose body is a block. -/
  | function (parameters : List Ident) (body : Block) (span : Span)

structure Pair where
  key : Expr
  value : Expr
  span : Span

/-- A pattern with what happens if it fits. -/
structure Arm where
  pattern : Expr
  body : ArmBody
  span : Span

inductive ArmBody where
  | expr (value : Expr)
  | block (body : Block)

structure Block where
  statements : List Stmt
  span : Span

inductive Stmt where
  /-- Leaves a function with a value. -/
  | returnValue (value : Expr) (span : Span)
  /-- Runs a block as long as a condition holds. -/
  | whileLoop (condition : Expr) (body : Block) (span : Span)
  /-- Runs the first block whose condition holds. -/
  | conditional (condition : Expr) (body : Block) (elifs : List Branch) (otherwise? : Option Block)
      (span : Span)
  /-- Runs a block for each element of a collection. -/
  | forLoop (element : Ident) (iterable : Expr) (body : Block) (span : Span)
  | breakLoop (span : Span)
  /-- Goes on with the next round of a loop. -/
  | continueLoop (span : Span)
  /-- An expression for its effect. -/
  | expression (value : Expr) (span : Span)
  /-- A name for a symbol that is defined outside of the language. -/
  | native (name : Ident) (symbol : String) (span : Span)
  /-- Makes other programs available. -/
  | imports (list : List Import) (span : Span)
  /-- Changes what a target holds. -/
  | assign (target : Expr) (operator : AssignOp) (value : Expr) (span : Span)
  /-- Gives a target its first value. -/
  | define (target value : Expr) (span : Span)
  /-- A function inside a block. -/
  | function (definition : Function) (span : Span)

/-- A further condition of a branching statement with its block. -/
structure Branch where
  condition : Expr
  body : Block
  span : Span

/-- A named function. Without a parameter list or a body it is declared only. -/
structure Function where
  name : Ident
  parameters? : Option (List Ident)
  body? : Option Block
  span : Span

end

/-- A trait: functions that a type may promise to have. -/
structure Trait where
  name : Ident
  methods : List Function
  span : Span

structure TypeDef where
  name : Ident
  parameters? : Option (List Ident)
  traits? : Option (List Ident)
  body? : Option Block
  span : Span

structure UnitDef where
  name : Ident
  body? : Option Block
  span : Span

/-- What a program defines at top level. -/
inductive Definition where
  | function (definition : Function)
  | trait (definition : Trait)
  | type (definition : TypeDef)
  | unit (definition : UnitDef)

inductive Item where
  | definition (definition : Definition)
  | statement (statement : Stmt)

structure Program where
  items : List Item
  span : Span

namespace Expr

def span : Expr → Span
  | .number _ s | .bool _ s | .string _ s | .symbol _ s | .list _ s | .map _ s | .member _ _ s
  | .call _ _ _ s | .binary _ _ _ s | .unary _ _ s | .new _ _ s | .choice _ _ _ s | .lambda _ _ s
  | .function _ _ s => s

end Expr

namespace Stmt

def span : Stmt → Span
  | .returnValue _ s | .whileLoop _ _ s | .conditional _ _ _ _ s | .forLoop _ _ _ s | .breakLoop s
  | .continueLoop s | .expression _ s | .native _ _ s | .imports _ s | .assign _ _ _ s | .define _ _ s
  | .function _ s => s

def describe : Stmt → String
  | .returnValue .. => "return"
  | .whileLoop .. => "while"
  | .conditional .. => "if"
  | .forLoop .. => "for"
  | .breakLoop .. => "break"
  | .continueLoop .. => "continue"
  | .expression .. => "expression"
  | .native .. => "native"
  | .imports .. => "import"
  | .assign .. => "assign"
  | .define .. => "define"
  | .function .. => "fn"

end Stmt

namespace Definition

def name : Definition → Ident
  | .function d => d.name
  | .trait d => d.name
  | .type d => d.name
  | .unit d => d.name

def span : Definition → Span
  | .function d => d.span
  | .trait d => d.span
  | .type d => d.span
  | .unit d => d.span

def describe : Definition → String
  | .function _ => "fn"
  | .trait _ => "trait"
  | .type _ => "type"
  | .unit _ => "unit"

end Definition

namespace Item

def name? : Item → Option Ident
  | .definition d => some d.name
  | .statement _ => none

def span : Item → Span
  | .definition d => d.span
  | .statement s => s.span

def describe : Item → String
  | .definition d => d.describe
  | .statement s => s.describe

end Item

end WattFront
