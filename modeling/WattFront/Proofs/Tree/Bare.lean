import WattFront.Tree.Basic

/-! # Trees without their spans

A tree is compared with another one *up to spans* by taking the spans off both of them: every span is
replaced by the same one, and nothing else changes.
-/

namespace WattFront

def Ident.bare (i : Ident) : Ident :=
  ⟨i.name, default⟩

def Import.bare (i : Import) : Import :=
  ⟨i.path, i.alias?.map Ident.bare, default⟩

mutual

def Expr.bare : Expr → Expr
  | .number value _ => .number value default
  | .bool value _ => .bool value default
  | .string value _ => .string value default
  | .symbol name _ => .symbol name default
  | .list elements _ => .list (Expr.bareAll elements) default
  | .map pairs _ => .map (Pair.bareAll pairs) default
  | .member object property _ => .member object.bare property.bare default
  | .call callee arguments propagate _ =>
    .call callee.bare (Expr.bareAll arguments) propagate default
  | .binary operator left right _ => .binary operator left.bare right.bare default
  | .unary operator operand _ => .unary operator operand.bare default
  | .new type arguments _ => .new type.bare (Expr.bareAll arguments) default
  | .choice scrutinee cases fallback? _ =>
    .choice scrutinee.bare (Arm.bareAll cases) (Arm.bare? fallback?) default
  | .lambda parameters body _ => .lambda (parameters.map Ident.bare) body.bare default
  | .function parameters body _ => .function (parameters.map Ident.bare) body.bare default

def Expr.bareAll : List Expr → List Expr
  | [] => []
  | e :: es => e.bare :: Expr.bareAll es

def Pair.bare : Pair → Pair
  | ⟨key, value, _⟩ => ⟨key.bare, value.bare, default⟩

def Pair.bareAll : List Pair → List Pair
  | [] => []
  | p :: ps => p.bare :: Pair.bareAll ps

def Arm.bare : Arm → Arm
  | ⟨pattern, body, _⟩ => ⟨pattern.bare, body.bare, default⟩

def Arm.bareAll : List Arm → List Arm
  | [] => []
  | a :: arms => a.bare :: Arm.bareAll arms

def Arm.bare? : Option Arm → Option Arm
  | none => none
  | some a => some a.bare

def ArmBody.bare : ArmBody → ArmBody
  | .expr value => .expr value.bare
  | .block body => .block body.bare

def Block.bare : Block → Block
  | ⟨statements, _⟩ => ⟨Stmt.bareAll statements, default⟩

def Block.bare? : Option Block → Option Block
  | none => none
  | some b => some b.bare

def Stmt.bare : Stmt → Stmt
  | .returnValue value _ => .returnValue value.bare default
  | .whileLoop condition body _ => .whileLoop condition.bare body.bare default
  | .conditional condition body elifs otherwise? _ =>
    .conditional condition.bare body.bare (Branch.bareAll elifs) (Block.bare? otherwise?) default
  | .forLoop element iterable body _ => .forLoop element.bare iterable.bare body.bare default
  | .breakLoop _ => .breakLoop default
  | .continueLoop _ => .continueLoop default
  | .expression value _ => .expression value.bare default
  | .native name symbol _ => .native name.bare symbol default
  | .imports list _ => .imports (list.map Import.bare) default
  | .assign target operator value _ => .assign target.bare operator value.bare default
  | .define target value _ => .define target.bare value.bare default
  | .function definition _ => .function definition.bare default

def Stmt.bareAll : List Stmt → List Stmt
  | [] => []
  | s :: ss => s.bare :: Stmt.bareAll ss

def Branch.bare : Branch → Branch
  | ⟨condition, body, _⟩ => ⟨condition.bare, body.bare, default⟩

def Branch.bareAll : List Branch → List Branch
  | [] => []
  | b :: bs => b.bare :: Branch.bareAll bs

def Function.bare : Function → Function
  | ⟨name, parameters?, body?, _⟩ =>
    ⟨name.bare, parameters?.map (·.map Ident.bare), Block.bare? body?, default⟩

end

attribute [simp] Expr.bare Pair.bare Arm.bare ArmBody.bare Block.bare Stmt.bare Branch.bare
  Function.bare

def Definition.bare : Definition → Definition
  | .function f => .function f.bare
  | .trait t => .trait ⟨t.name.bare, t.methods.map Function.bare, default⟩
  | .type t =>
    .type ⟨t.name.bare, t.parameters?.map (·.map Ident.bare), t.traits?.map (·.map Ident.bare),
      Block.bare? t.body?, default⟩
  | .unit u => .unit ⟨u.name.bare, Block.bare? u.body?, default⟩

def Item.bare : Item → Item
  | .definition d => .definition d.bare
  | .statement s => .statement s.bare

/-- A program without its spans. -/
def Program.bare (p : Program) : Program :=
  ⟨p.items.map Item.bare, default⟩

/-! ## Lists of trees -/

@[simp] theorem Expr.bareAll_eq (es : List Expr) : Expr.bareAll es = es.map Expr.bare := by
  induction es with
  | nil => rfl
  | cons e es ih => rw [Expr.bareAll, ih, List.map_cons]

@[simp] theorem Pair.bareAll_eq (ps : List Pair) : Pair.bareAll ps = ps.map Pair.bare := by
  induction ps with
  | nil => rfl
  | cons p ps ih => rw [Pair.bareAll, ih, List.map_cons]

@[simp] theorem Arm.bareAll_eq (arms : List Arm) : Arm.bareAll arms = arms.map Arm.bare := by
  induction arms with
  | nil => rfl
  | cons a arms ih => rw [Arm.bareAll, ih, List.map_cons]

@[simp] theorem Stmt.bareAll_eq (ss : List Stmt) : Stmt.bareAll ss = ss.map Stmt.bare := by
  induction ss with
  | nil => rfl
  | cons s ss ih => rw [Stmt.bareAll, ih, List.map_cons]

@[simp] theorem Branch.bareAll_eq (bs : List Branch) : Branch.bareAll bs = bs.map Branch.bare := by
  induction bs with
  | nil => rfl
  | cons b bs ih => rw [Branch.bareAll, ih, List.map_cons]

@[simp] theorem Arm.bare?_eq (a? : Option Arm) : Arm.bare? a? = a?.map Arm.bare := by
  cases a? <;> rfl

@[simp] theorem Block.bare?_eq (b? : Option Block) : Block.bare? b? = b?.map Block.bare := by
  cases b? <;> rfl

end WattFront
