import WattFront.Tree.Basic

/-! # The shape of trees

Not every tree can be written down. The object of a property and the callee of a call can only be a
chain, which starts with a name, and so can the target of an assignment and an expression that is a
statement. An import names something to import, and it stands at top level, where the statements that
only make sense inside a function do not stand.
-/

namespace WattFront

/-- Whether an expression is a name with properties and calls behind it. -/
def Expr.isChain : Expr → Bool
  | .symbol .. => true
  | .member object _ _ => object.isChain
  | .call callee _ _ _ => callee.isChain
  | _ => false

mutual

/-- Whether an expression has the shape that can be written down. -/
def Expr.shaped : Expr → Bool
  | .number .. | .bool .. | .string .. | .symbol .. => true
  | .list elements _ => Expr.allShaped elements
  | .map pairs _ => Pair.allShaped pairs
  | .member object _ _ => object.isChain && object.shaped
  | .call callee arguments _ _ => callee.isChain && callee.shaped && Expr.allShaped arguments
  | .binary _ left right _ => left.shaped && right.shaped
  | .unary _ operand _ => operand.shaped
  | .new _ arguments _ => Expr.allShaped arguments
  | .choice scrutinee cases fallback? _ =>
    scrutinee.shaped && Arm.allShaped cases && Arm.shaped? fallback?
  | .lambda _ body _ => body.shaped
  | .function _ body _ => body.shaped

def Expr.allShaped : List Expr → Bool
  | [] => true
  | e :: es => e.shaped && Expr.allShaped es

def Pair.shaped : Pair → Bool
  | ⟨key, value, _⟩ => key.shaped && value.shaped

def Pair.allShaped : List Pair → Bool
  | [] => true
  | p :: ps => p.shaped && Pair.allShaped ps

def Arm.shaped : Arm → Bool
  | ⟨pattern, body, _⟩ => pattern.shaped && body.shaped

def Arm.allShaped : List Arm → Bool
  | [] => true
  | a :: arms => a.shaped && Arm.allShaped arms

def Arm.shaped? : Option Arm → Bool
  | none => true
  | some a => a.shaped

def ArmBody.shaped : ArmBody → Bool
  | .expr value => value.shaped
  | .block body => body.shaped

def Block.shaped : Block → Bool
  | ⟨statements, _⟩ => Stmt.allShaped statements

def Block.shaped? : Option Block → Bool
  | none => true
  | some b => b.shaped

def Stmt.shaped : Stmt → Bool
  | .returnValue value _ => value.shaped
  | .whileLoop condition body _ => condition.shaped && body.shaped
  | .conditional condition body elifs otherwise? _ =>
    condition.shaped && body.shaped && Branch.allShaped elifs && Block.shaped? otherwise?
  | .forLoop _ iterable body _ => iterable.shaped && body.shaped
  | .breakLoop _ | .continueLoop _ | .native .. => true
  | .expression value _ => value.isChain && value.shaped
  | .imports .. => false
  | .assign target _ value _ => target.isChain && target.shaped && value.shaped
  | .define target value _ => target.isChain && target.shaped && value.shaped
  | .function definition _ => definition.shaped

def Stmt.allShaped : List Stmt → Bool
  | [] => true
  | s :: ss => s.shaped && Stmt.allShaped ss

def Branch.shaped : Branch → Bool
  | ⟨condition, body, _⟩ => condition.shaped && body.shaped

def Branch.allShaped : List Branch → Bool
  | [] => true
  | b :: bs => b.shaped && Branch.allShaped bs

def Function.shaped : Function → Bool
  | ⟨_, _, body?, _⟩ => Block.shaped? body?

end

attribute [simp] Expr.shaped Pair.shaped Arm.shaped ArmBody.shaped Block.shaped Stmt.shaped
  Branch.shaped Function.shaped

def Definition.shaped : Definition → Bool
  | .function f => f.shaped
  | .trait t => t.methods.all Function.shaped
  | .type t => Block.shaped? t.body?
  | .unit u => Block.shaped? u.body?

def Item.shaped : Item → Bool
  | .definition d => d.shaped
  | .statement (.imports list _) => !list.isEmpty
  | .statement (.breakLoop _) | .statement (.continueLoop _) => false
  | .statement (.expression ..) | .statement (.function ..) => false
  | .statement s => s.shaped

def Program.shaped (p : Program) : Bool :=
  p.items.all Item.shaped

/-! ## Lists of trees -/

@[simp] theorem Expr.allShaped_eq (es : List Expr) : Expr.allShaped es = es.all Expr.shaped := by
  induction es with
  | nil => rfl
  | cons e es ih => rw [Expr.allShaped, ih, List.all_cons]

@[simp] theorem Pair.allShaped_eq (ps : List Pair) : Pair.allShaped ps = ps.all Pair.shaped := by
  induction ps with
  | nil => rfl
  | cons p ps ih => rw [Pair.allShaped, ih, List.all_cons]

@[simp] theorem Arm.allShaped_eq (arms : List Arm) : Arm.allShaped arms = arms.all Arm.shaped := by
  induction arms with
  | nil => rfl
  | cons a arms ih => rw [Arm.allShaped, ih, List.all_cons]

@[simp] theorem Stmt.allShaped_eq (ss : List Stmt) : Stmt.allShaped ss = ss.all Stmt.shaped := by
  induction ss with
  | nil => rfl
  | cons s ss ih => rw [Stmt.allShaped, ih, List.all_cons]

@[simp] theorem Branch.allShaped_eq (bs : List Branch) : Branch.allShaped bs = bs.all Branch.shaped := by
  induction bs with
  | nil => rfl
  | cons b bs ih => rw [Branch.allShaped, ih, List.all_cons]

@[simp] theorem Arm.shaped?_eq (a? : Option Arm) : Arm.shaped? a? = a?.all Arm.shaped := by
  cases a? <;> rfl

@[simp] theorem Block.shaped?_eq (b? : Option Block) : Block.shaped? b? = b?.all Block.shaped := by
  cases b? <;> rfl

end WattFront
