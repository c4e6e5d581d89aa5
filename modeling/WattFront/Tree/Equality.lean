import WattFront.Tree.Basic

/-! # Equality of trees

Two trees are equal if they have the same form, the same parts and the same spans, files included.
Since the types of trees contain lists of one another, the test is written out: `Expr.same` and its
companions compare two trees of one type, and `Expr.same_iff` and its companions say that they decide
equality. Above statements the instances are derived.
-/

namespace WattFront

mutual

/-- Whether two expressions are equal. -/
def Expr.same : Expr → Expr → Bool
  | .number v s, .number w t => v = w && s = t
  | .bool v s, .bool w t => v = w && s = t
  | .string v s, .string w t => v = w && s = t
  | .symbol v s, .symbol w t => v = w && s = t
  | .list v s, .list w t => Expr.sameAll v w && s = t
  | .map v s, .map w t => Pair.sameAll v w && s = t
  | .member v p s, .member w q t => v.same w && p = q && s = t
  | .call v as p s, .call w bs q t => v.same w && Expr.sameAll as bs && p = q && s = t
  | .binary o v x s, .binary p w y t => o = p && v.same w && x.same y && s = t
  | .unary o v s, .unary p w t => o = p && v.same w && s = t
  | .new v as s, .new w bs t => v = w && Expr.sameAll as bs && s = t
  | .choice v as x s, .choice w bs y t =>
    v.same w && Arm.sameAll as bs && Arm.same? x y && s = t
  | .lambda ps v s, .lambda qs w t => ps = qs && v.same w && s = t
  | .function ps v s, .function qs w t => ps = qs && v.same w && s = t
  | _, _ => false

def Expr.sameAll : List Expr → List Expr → Bool
  | [], [] => true
  | v :: vs, w :: ws => v.same w && Expr.sameAll vs ws
  | _, _ => false

def Pair.same : Pair → Pair → Bool
  | ⟨k, v, s⟩, ⟨l, w, t⟩ => k.same l && v.same w && s = t

def Pair.sameAll : List Pair → List Pair → Bool
  | [], [] => true
  | v :: vs, w :: ws => v.same w && Pair.sameAll vs ws
  | _, _ => false

def Arm.same : Arm → Arm → Bool
  | ⟨p, v, s⟩, ⟨q, w, t⟩ => p.same q && v.same w && s = t

def Arm.sameAll : List Arm → List Arm → Bool
  | [], [] => true
  | v :: vs, w :: ws => v.same w && Arm.sameAll vs ws
  | _, _ => false

def Arm.same? : Option Arm → Option Arm → Bool
  | none, none => true
  | some v, some w => v.same w
  | _, _ => false

def ArmBody.same : ArmBody → ArmBody → Bool
  | .expr v, .expr w => v.same w
  | .block v, .block w => v.same w
  | _, _ => false

def Block.same : Block → Block → Bool
  | ⟨v, s⟩, ⟨w, t⟩ => Stmt.sameAll v w && s = t

def Block.same? : Option Block → Option Block → Bool
  | none, none => true
  | some v, some w => v.same w
  | _, _ => false

def Stmt.same : Stmt → Stmt → Bool
  | .returnValue v s, .returnValue w t => v.same w && s = t
  | .whileLoop v b s, .whileLoop w c t => v.same w && b.same c && s = t
  | .conditional v b es x s, .conditional w c fs y t =>
    v.same w && b.same c && Branch.sameAll es fs && Block.same? x y && s = t
  | .forLoop n v b s, .forLoop m w c t => n = m && v.same w && b.same c && s = t
  | .breakLoop s, .breakLoop t => s = t
  | .continueLoop s, .continueLoop t => s = t
  | .expression v s, .expression w t => v.same w && s = t
  | .native n v s, .native m w t => n = m && v = w && s = t
  | .imports v s, .imports w t => v = w && s = t
  | .assign v o x s, .assign w p y t => v.same w && o = p && x.same y && s = t
  | .define v x s, .define w y t => v.same w && x.same y && s = t
  | .function v s, .function w t => v.same w && s = t
  | _, _ => false

def Stmt.sameAll : List Stmt → List Stmt → Bool
  | [], [] => true
  | v :: vs, w :: ws => v.same w && Stmt.sameAll vs ws
  | _, _ => false

def Branch.same : Branch → Branch → Bool
  | ⟨v, b, s⟩, ⟨w, c, t⟩ => v.same w && b.same c && s = t

def Branch.sameAll : List Branch → List Branch → Bool
  | [], [] => true
  | v :: vs, w :: ws => v.same w && Branch.sameAll vs ws
  | _, _ => false

def Function.same : Function → Function → Bool
  | ⟨n, ps, b, s⟩, ⟨m, qs, c, t⟩ => n = m && ps = qs && Block.same? b c && s = t

end

/-! ## The tests decide equality -/

mutual

theorem Expr.same_iff (a b : Expr) : a.same b = true ↔ a = b := by
  match a with
  | .number .. | .bool .. | .string .. | .symbol .. => cases b <;> simp [Expr.same]
  | .list v _ => cases b <;> simp [Expr.same, Expr.sameAll_iff v]
  | .map v _ => cases b <;> simp [Expr.same, Pair.sameAll_iff v]
  | .member v _ _ => cases b <;> simp [Expr.same, Expr.same_iff v, and_assoc]
  | .call v as _ _ =>
    cases b <;> simp [Expr.same, Expr.same_iff v, Expr.sameAll_iff as, and_assoc]
  | .binary _ v x _ => cases b <;> simp [Expr.same, Expr.same_iff v, Expr.same_iff x, and_assoc]
  | .unary _ v _ => cases b <;> simp [Expr.same, Expr.same_iff v, and_assoc]
  | .new _ as _ => cases b <;> simp [Expr.same, Expr.sameAll_iff as, and_assoc]
  | .choice v as x _ =>
    cases b <;>
      simp [Expr.same, Expr.same_iff v, Arm.sameAll_iff as, Arm.same?_iff x, and_assoc]
  | .lambda _ v _ => cases b <;> simp [Expr.same, Expr.same_iff v, and_assoc]
  | .function _ v _ => cases b <;> simp [Expr.same, Block.same_iff v, and_assoc]

theorem Expr.sameAll_iff (a b : List Expr) : Expr.sameAll a b = true ↔ a = b := by
  match a with
  | [] => cases b <;> simp [Expr.sameAll]
  | v :: vs => cases b <;> simp [Expr.sameAll, Expr.same_iff v, Expr.sameAll_iff vs]

theorem Pair.same_iff (a b : Pair) : a.same b = true ↔ a = b := by
  match a with
  | ⟨k, v, _⟩ => cases b; simp [Pair.same, Expr.same_iff k, Expr.same_iff v, and_assoc]

theorem Pair.sameAll_iff (a b : List Pair) : Pair.sameAll a b = true ↔ a = b := by
  match a with
  | [] => cases b <;> simp [Pair.sameAll]
  | v :: vs => cases b <;> simp [Pair.sameAll, Pair.same_iff v, Pair.sameAll_iff vs]

theorem Arm.same_iff (a b : Arm) : a.same b = true ↔ a = b := by
  match a with
  | ⟨p, v, _⟩ => cases b; simp [Arm.same, Expr.same_iff p, ArmBody.same_iff v, and_assoc]

theorem Arm.sameAll_iff (a b : List Arm) : Arm.sameAll a b = true ↔ a = b := by
  match a with
  | [] => cases b <;> simp [Arm.sameAll]
  | v :: vs => cases b <;> simp [Arm.sameAll, Arm.same_iff v, Arm.sameAll_iff vs]

theorem Arm.same?_iff (a b : Option Arm) : Arm.same? a b = true ↔ a = b := by
  match a with
  | none => cases b <;> simp [Arm.same?]
  | some v => cases b <;> simp [Arm.same?, Arm.same_iff v]

theorem ArmBody.same_iff (a b : ArmBody) : a.same b = true ↔ a = b := by
  match a with
  | .expr v => cases b <;> simp [ArmBody.same, Expr.same_iff v]
  | .block v => cases b <;> simp [ArmBody.same, Block.same_iff v]

theorem Block.same_iff (a b : Block) : a.same b = true ↔ a = b := by
  match a with
  | ⟨v, _⟩ => cases b; simp [Block.same, Stmt.sameAll_iff v]

theorem Block.same?_iff (a b : Option Block) : Block.same? a b = true ↔ a = b := by
  match a with
  | none => cases b <;> simp [Block.same?]
  | some v => cases b <;> simp [Block.same?, Block.same_iff v]

theorem Stmt.same_iff (a b : Stmt) : a.same b = true ↔ a = b := by
  match a with
  | .breakLoop _ | .continueLoop _ | .native .. | .imports .. =>
    cases b <;> simp [Stmt.same, and_assoc]
  | .returnValue v _ => cases b <;> simp [Stmt.same, Expr.same_iff v]
  | .whileLoop v x _ =>
    cases b <;> simp [Stmt.same, Expr.same_iff v, Block.same_iff x, and_assoc]
  | .conditional v x es y _ =>
    cases b <;>
      simp [Stmt.same, Expr.same_iff v, Block.same_iff x, Branch.sameAll_iff es, Block.same?_iff y,
        and_assoc]
  | .forLoop _ v x _ =>
    cases b <;> simp [Stmt.same, Expr.same_iff v, Block.same_iff x, and_assoc]
  | .expression v _ => cases b <;> simp [Stmt.same, Expr.same_iff v]
  | .assign v _ x _ => cases b <;> simp [Stmt.same, Expr.same_iff v, Expr.same_iff x, and_assoc]
  | .define v x _ => cases b <;> simp [Stmt.same, Expr.same_iff v, Expr.same_iff x, and_assoc]
  | .function v _ => cases b <;> simp [Stmt.same, Function.same_iff v]

theorem Stmt.sameAll_iff (a b : List Stmt) : Stmt.sameAll a b = true ↔ a = b := by
  match a with
  | [] => cases b <;> simp [Stmt.sameAll]
  | v :: vs => cases b <;> simp [Stmt.sameAll, Stmt.same_iff v, Stmt.sameAll_iff vs]

theorem Branch.same_iff (a b : Branch) : a.same b = true ↔ a = b := by
  match a with
  | ⟨v, x, _⟩ => cases b; simp [Branch.same, Expr.same_iff v, Block.same_iff x, and_assoc]

theorem Branch.sameAll_iff (a b : List Branch) : Branch.sameAll a b = true ↔ a = b := by
  match a with
  | [] => cases b <;> simp [Branch.sameAll]
  | v :: vs => cases b <;> simp [Branch.sameAll, Branch.same_iff v, Branch.sameAll_iff vs]

theorem Function.same_iff (a b : Function) : a.same b = true ↔ a = b := by
  match a with
  | ⟨_, _, v, _⟩ => cases b; simp [Function.same, Block.same?_iff v, and_assoc]

end

instance : DecidableEq Expr := fun a b => decidable_of_iff _ (Expr.same_iff a b)

instance : DecidableEq Block := fun a b => decidable_of_iff _ (Block.same_iff a b)

instance : DecidableEq Stmt := fun a b => decidable_of_iff _ (Stmt.same_iff a b)

instance : DecidableEq Function := fun a b => decidable_of_iff _ (Function.same_iff a b)

deriving instance DecidableEq for Trait, TypeDef, UnitDef, Definition, Item, Program

end WattFront
