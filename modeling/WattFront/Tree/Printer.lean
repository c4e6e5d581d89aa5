import WattFront.Token.Escape
import WattFront.Tree.Basic

/-! # The written form of trees

A tree is written as an s-expression: an opening parenthesis, a word for the form, the parts and a
closing parenthesis. Spans are left out, so two trees that differ in layout or comments only are
written alike:

```text
x := 1 + 2 * 3        (:= x (+ 1 (* 2 3)))
fn f(a) { g(a)? }     (fn f [a] (block (call? g a)))
```

Each list of parts is written with a blank in front of each part.
-/

namespace WattFront

/-- A blank and a text. -/
def spaced (text : String) : String :=
  " " ++ text

def writeParameters (parameters : List Ident) : String :=
  "[" ++ " ".intercalate (parameters.map Ident.name) ++ "]"

/-- The written form of a parameter list that may be missing, with a blank in front of it. -/
def writeParameters? : Option (List Ident) → String
  | none => ""
  | some parameters => spaced (writeParameters parameters)

def Import.text (i : Import) : String :=
  let naming := match i.alias? with
    | none => ""
    | some name => " with " ++ name.name
  "(" ++ Escape.literal i.path ++ naming ++ ")"

mutual

/-- The written form of an expression. -/
def Expr.text : Expr → String
  | .number value _ => toString value
  | .bool value _ => if value then "true" else "false"
  | .string value _ => Escape.literal value
  | .symbol name _ => name
  | .list elements _ => "(list" ++ Expr.textAll elements ++ ")"
  | .map pairs _ => "(map" ++ Pair.textAll pairs ++ ")"
  | .member object property _ => "(. " ++ object.text ++ " " ++ property.name ++ ")"
  | .call callee arguments propagate _ =>
    (if propagate then "(call? " else "(call ") ++ callee.text ++ Expr.textAll arguments ++ ")"
  | .binary operator left right _ =>
    "(" ++ operator.symbol ++ " " ++ left.text ++ " " ++ right.text ++ ")"
  | .unary operator operand _ => "(" ++ operator.symbol ++ " " ++ operand.text ++ ")"
  | .new type arguments _ => "(new " ++ type.name ++ Expr.textAll arguments ++ ")"
  | .choice scrutinee cases fallback? _ =>
    "(match " ++ scrutinee.text ++ Arm.textAll cases ++ Arm.text? fallback? ++ ")"
  | .lambda parameters body _ =>
    "(lambda " ++ writeParameters parameters ++ " " ++ body.text ++ ")"
  | .function parameters body _ =>
    "(fn " ++ writeParameters parameters ++ " " ++ body.text ++ ")"

def Expr.textAll : List Expr → String
  | [] => ""
  | e :: es => spaced e.text ++ Expr.textAll es

def Pair.text : Pair → String
  | ⟨key, value, _⟩ => "(: " ++ key.text ++ " " ++ value.text ++ ")"

def Pair.textAll : List Pair → String
  | [] => ""
  | p :: ps => spaced p.text ++ Pair.textAll ps

def Arm.text : Arm → String
  | ⟨pattern, body, _⟩ => pattern.text ++ " " ++ body.text

def Arm.textAll : List Arm → String
  | [] => ""
  | a :: arms => spaced ("(case " ++ a.text ++ ")") ++ Arm.textAll arms

def Arm.text? : Option Arm → String
  | none => ""
  | some a => spaced ("(default " ++ a.text ++ ")")

def ArmBody.text : ArmBody → String
  | .expr value => value.text
  | .block body => body.text

def Block.text : Block → String
  | ⟨statements, _⟩ => "(block" ++ Stmt.textAll statements ++ ")"

def Block.text? : Option Block → String
  | none => ""
  | some body => spaced body.text

def Block.textElse? : Option Block → String
  | none => ""
  | some body => spaced ("(else " ++ body.text ++ ")")

def Stmt.text : Stmt → String
  | .returnValue value _ => "(return " ++ value.text ++ ")"
  | .whileLoop condition body _ => "(while " ++ condition.text ++ " " ++ body.text ++ ")"
  | .conditional condition body elifs otherwise? _ =>
    "(if " ++ condition.text ++ " " ++ body.text ++ Branch.textAll elifs
      ++ Block.textElse? otherwise? ++ ")"
  | .forLoop element iterable body _ =>
    "(for " ++ element.name ++ " " ++ iterable.text ++ " " ++ body.text ++ ")"
  | .breakLoop _ => "(break)"
  | .continueLoop _ => "(continue)"
  | .expression value _ => value.text
  | .native name symbol _ => "(native " ++ name.name ++ " " ++ Escape.literal symbol ++ ")"
  | .imports list _ => "(import" ++ String.join (list.map fun i => spaced i.text) ++ ")"
  | .assign target operator value _ =>
    "(" ++ operator.symbol ++ " " ++ target.text ++ " " ++ value.text ++ ")"
  | .define target value _ => "(:= " ++ target.text ++ " " ++ value.text ++ ")"
  | .function definition _ => definition.text

/-- The written form of statements, each behind a blank. -/
def Stmt.textAll : List Stmt → String
  | [] => ""
  | s :: ss => spaced s.text ++ Stmt.textAll ss

def Branch.text : Branch → String
  | ⟨condition, body, _⟩ => "(elif " ++ condition.text ++ " " ++ body.text ++ ")"

def Branch.textAll : List Branch → String
  | [] => ""
  | b :: bs => spaced b.text ++ Branch.textAll bs

def Function.text : Function → String
  | ⟨name, parameters?, body?, _⟩ =>
    "(fn " ++ name.name ++ writeParameters? parameters? ++ Block.text? body? ++ ")"

end

def Definition.text : Definition → String
  | .function d => d.text
  | .trait d =>
    "(trait " ++ d.name.name ++ String.join (d.methods.map fun m => spaced m.text) ++ ")"
  | .type d =>
    let traits := match d.traits? with
      | none => ""
      | some names => " (impl" ++ String.join (names.map fun n => spaced n.name) ++ ")"
    "(type " ++ d.name.name ++ writeParameters? d.parameters? ++ traits ++ Block.text? d.body? ++ ")"
  | .unit d => "(unit " ++ d.name.name ++ Block.text? d.body? ++ ")"

def Item.text : Item → String
  | .definition d => d.text
  | .statement s => s.text

/-- The written form of a program: its items, one on each line. -/
def Program.text (p : Program) : String :=
  "\n".intercalate (p.items.map Item.text)

end WattFront
