import WattFront.Tree.Basic

/-! # The expressions of a tree

All expressions of a program: those that are written down as parts of its items, and those inside of them. Some are
set apart because of how they are read: the *links* of a chain are the chains that it starts with, down to its name. A
statement that starts with a chain reads it by itself, so no expression is opened for it.
-/

namespace WattFront

mutual

/-- An expression, and the expressions inside it. -/
def Expr.expressions : Expr → List Expr
  | .number value s => [.number value s]
  | .bool value s => [.bool value s]
  | .string value s => [.string value s]
  | .symbol name s => [.symbol name s]
  | .list elements s => .list elements s :: Expr.allExpressions elements
  | .map pairs s => .map pairs s :: Pair.allExpressions pairs
  | .member object property s => .member object property s :: object.expressions
  | .call callee arguments propagate s =>
    .call callee arguments propagate s :: (callee.expressions ++ Expr.allExpressions arguments)
  | .binary operator left right s => .binary operator left right s :: (left.expressions ++ right.expressions)
  | .unary operator operand s => .unary operator operand s :: operand.expressions
  | .new type arguments s => .new type arguments s :: Expr.allExpressions arguments
  | .choice scrutinee cases fallback? s =>
    .choice scrutinee cases fallback? s
      :: (scrutinee.expressions ++ (Arm.allExpressions cases ++ Arm.expressions? fallback?))
  | .lambda parameters body s => .lambda parameters body s :: body.expressions
  | .function parameters body s => .function parameters body s :: body.expressions

def Expr.allExpressions : List Expr → List Expr
  | [] => []
  | e :: es => e.expressions ++ Expr.allExpressions es

def Pair.expressions : Pair → List Expr
  | ⟨key, value, _⟩ => key.expressions ++ value.expressions

def Pair.allExpressions : List Pair → List Expr
  | [] => []
  | p :: ps => p.expressions ++ Pair.allExpressions ps

def Arm.expressions : Arm → List Expr
  | ⟨pattern, body, _⟩ => pattern.expressions ++ body.expressions

def Arm.allExpressions : List Arm → List Expr
  | [] => []
  | a :: arms => a.expressions ++ Arm.allExpressions arms

def Arm.expressions? : Option Arm → List Expr
  | none => []
  | some a => a.expressions

def ArmBody.expressions : ArmBody → List Expr
  | .expr value => value.expressions
  | .block body => body.expressions

def Block.expressions : Block → List Expr
  | ⟨statements, _⟩ => Stmt.allExpressions statements

def Block.expressions? : Option Block → List Expr
  | none => []
  | some body => body.expressions

def Stmt.expressions : Stmt → List Expr
  | .returnValue value _ => value.expressions
  | .whileLoop condition body _ => condition.expressions ++ body.expressions
  | .conditional condition body elifs otherwise? _ =>
    condition.expressions ++ (body.expressions ++ (Branch.allExpressions elifs ++ Block.expressions? otherwise?))
  | .forLoop _ iterable body _ => iterable.expressions ++ body.expressions
  | .breakLoop _ | .continueLoop _ | .native .. | .imports .. => []
  | .expression value _ => value.expressions
  | .assign target _ value _ => target.expressions ++ value.expressions
  | .define target value _ => target.expressions ++ value.expressions
  | .function definition _ => definition.expressions

def Stmt.allExpressions : List Stmt → List Expr
  | [] => []
  | s :: ss => s.expressions ++ Stmt.allExpressions ss

def Branch.expressions : Branch → List Expr
  | ⟨condition, body, _⟩ => condition.expressions ++ body.expressions

def Branch.allExpressions : List Branch → List Expr
  | [] => []
  | b :: bs => b.expressions ++ Branch.allExpressions bs

def Function.expressions : Function → List Expr
  | ⟨_, _, body?, _⟩ => Block.expressions? body?

end

def Definition.expressions : Definition → List Expr
  | .function d => d.expressions
  | .trait d => d.methods.flatMap Function.expressions
  | .type d => Block.expressions? d.body?
  | .unit d => Block.expressions? d.body?

def Item.expressions : Item → List Expr
  | .definition d => d.expressions
  | .statement s => s.expressions

def Program.expressions (p : Program) : List Expr :=
  p.items.flatMap Item.expressions

/-! ## Expressions of lists -/

theorem Expr.allExpressions_eq (es : List Expr) : Expr.allExpressions es = es.flatMap Expr.expressions := by
  induction es with
  | nil => rfl
  | cons e es ih => rw [Expr.allExpressions, ih, List.flatMap_cons]

theorem Pair.allExpressions_eq (ps : List Pair) : Pair.allExpressions ps = ps.flatMap Pair.expressions := by
  induction ps with
  | nil => rfl
  | cons p ps ih => rw [Pair.allExpressions, ih, List.flatMap_cons]

theorem Arm.allExpressions_eq (arms : List Arm) : Arm.allExpressions arms = arms.flatMap Arm.expressions := by
  induction arms with
  | nil => rfl
  | cons a arms ih => rw [Arm.allExpressions, ih, List.flatMap_cons]

theorem Stmt.allExpressions_eq (ss : List Stmt) : Stmt.allExpressions ss = ss.flatMap Stmt.expressions := by
  induction ss with
  | nil => rfl
  | cons s ss ih => rw [Stmt.allExpressions, ih, List.flatMap_cons]

theorem Branch.allExpressions_eq (bs : List Branch) : Branch.allExpressions bs = bs.flatMap Branch.expressions := by
  induction bs with
  | nil => rfl
  | cons b bs ih => rw [Branch.allExpressions, ih, List.flatMap_cons]

/-! ## Operators, links and targets -/

def Expr.isBinary : Expr → Bool
  | .binary .. => true
  | _ => false

/-- A chain, and the chains that it starts with. -/
def Expr.links : Expr → List Expr
  | .member object property s => .member object property s :: object.links
  | .call callee arguments propagate s => .call callee arguments propagate s :: callee.links
  | e => [e]

/-- The links of the chain that a statement starts with. -/
def Stmt.leadingLinks : Stmt → List Expr
  | .expression value _ => value.links
  | .assign target _ _ _ => target.links
  | .define target _ _ => target.links
  | _ => []

def Item.leadingLinks : Item → List Expr
  | .definition _ => []
  | .statement s => s.leadingLinks

/-- The links of the targets at top level: of the chains in front of the marks of the items that are definitions and
assignments of values. -/
def Program.targetLinks (p : Program) : List Expr :=
  p.items.flatMap Item.leadingLinks

end WattFront
