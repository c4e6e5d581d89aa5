import WattFront.Token.Numeral
import WattFront.Token.Basic
import WattFront.Tree.Basic

/-! # What tokens leave in a tree

A name, a number, a string or a truth value ends up in the tree that its token is read into, and so does
the mark for handing on failures. These are the *traces* of a tree, in the order of the text. All other
tokens only say how the tree is put together. The word in front of the traits of a type counts as a
trace, since its token is an identifier.
-/

namespace WattFront

/-- What one token leaves in a tree. -/
inductive Trace where
  | name (text : String)
  | number (value : Int)
  | string (text : String)
  | bool (value : Bool)
  | propagation
deriving DecidableEq, Repr

/-- What a token leaves in a tree. -/
def Token.trace? (token : Token) : Option Trace :=
  match token.kind with
  | .identifier => some (.name token.value)
  | .number => (Numeral.value? token.value.toList).map .number
  | .string => some (.string token.value)
  | .kwTrue => some (.bool true)
  | .kwFalse => some (.bool false)
  | .question => some .propagation
  | _ => none

def Ident.trace (i : Ident) : Trace :=
  .name i.name

def tracesOfParameters (parameters? : Option (List Ident)) : List Trace :=
  (parameters?.getD []).map Ident.trace

def Import.traces (i : Import) : List Trace :=
  .string i.path :: i.alias?.toList.map Ident.trace

mutual

/-- The traces of an expression. -/
def Expr.traces : Expr → List Trace
  | .number value _ => [.number value]
  | .bool value _ => [.bool value]
  | .string value _ => [.string value]
  | .symbol name _ => [.name name]
  | .list elements _ => Expr.tracesAll elements
  | .map pairs _ => Pair.tracesAll pairs
  | .member object property _ => object.traces ++ [property.trace]
  | .call callee arguments propagate _ =>
    callee.traces ++ (Expr.tracesAll arguments ++ if propagate then [.propagation] else [])
  | .binary _ left right _ => left.traces ++ right.traces
  | .unary _ operand _ => operand.traces
  | .new type arguments _ => type.trace :: Expr.tracesAll arguments
  | .choice scrutinee cases fallback? _ =>
    scrutinee.traces ++ (Arm.tracesAll cases ++ Arm.traces? fallback?)
  | .lambda parameters body _ => parameters.map Ident.trace ++ body.traces
  | .function parameters body _ => parameters.map Ident.trace ++ body.traces

def Expr.tracesAll : List Expr → List Trace
  | [] => []
  | e :: es => e.traces ++ Expr.tracesAll es

def Pair.traces : Pair → List Trace
  | ⟨key, value, _⟩ => key.traces ++ value.traces

def Pair.tracesAll : List Pair → List Trace
  | [] => []
  | p :: ps => p.traces ++ Pair.tracesAll ps

def Arm.traces : Arm → List Trace
  | ⟨pattern, body, _⟩ => pattern.traces ++ body.traces

def Arm.tracesAll : List Arm → List Trace
  | [] => []
  | a :: arms => a.traces ++ Arm.tracesAll arms

def Arm.traces? : Option Arm → List Trace
  | none => []
  | some a => a.traces

def ArmBody.traces : ArmBody → List Trace
  | .expr value => value.traces
  | .block body => body.traces

def Block.traces : Block → List Trace
  | ⟨statements, _⟩ => Stmt.tracesAll statements

def Block.traces? : Option Block → List Trace
  | none => []
  | some b => b.traces

def Stmt.traces : Stmt → List Trace
  | .returnValue value _ => value.traces
  | .whileLoop condition body _ => condition.traces ++ body.traces
  | .conditional condition body elifs otherwise? _ =>
    condition.traces ++ (body.traces ++ (Branch.tracesAll elifs ++ Block.traces? otherwise?))
  | .forLoop element iterable body _ => element.trace :: (iterable.traces ++ body.traces)
  | .breakLoop _ => []
  | .continueLoop _ => []
  | .expression value _ => value.traces
  | .native name symbol _ => [name.trace, .string symbol]
  | .imports list _ => list.flatMap Import.traces
  | .assign target _ value _ => target.traces ++ value.traces
  | .define target value _ => target.traces ++ value.traces
  | .function definition _ => definition.traces

def Stmt.tracesAll : List Stmt → List Trace
  | [] => []
  | s :: ss => s.traces ++ Stmt.tracesAll ss

def Branch.traces : Branch → List Trace
  | ⟨condition, body, _⟩ => condition.traces ++ body.traces

def Branch.tracesAll : List Branch → List Trace
  | [] => []
  | b :: bs => b.traces ++ Branch.tracesAll bs

def Function.traces : Function → List Trace
  | ⟨name, parameters?, body?, _⟩ => name.trace :: (tracesOfParameters parameters? ++ Block.traces? body?)

end

attribute [simp] Expr.traces Pair.traces Arm.traces ArmBody.traces Block.traces Stmt.traces
  Branch.traces Function.traces

def tracesOfTraits : Option (List Ident) → List Trace
  | none => []
  | some names => .name "impl" :: names.map Ident.trace

def Definition.traces : Definition → List Trace
  | .function f => f.traces
  | .trait t => t.name.trace :: t.methods.flatMap Function.traces
  | .type t =>
    t.name.trace :: (tracesOfParameters t.parameters? ++ (tracesOfTraits t.traits? ++ Block.traces? t.body?))
  | .unit u => u.name.trace :: Block.traces? u.body?

def Item.traces : Item → List Trace
  | .definition d => d.traces
  | .statement s => s.traces

def Program.traces (p : Program) : List Trace :=
  p.items.flatMap Item.traces

/-! ## Lists of trees -/

@[simp] theorem Expr.tracesAll_eq (es : List Expr) : Expr.tracesAll es = es.flatMap Expr.traces := by
  induction es with
  | nil => rfl
  | cons e es ih => rw [Expr.tracesAll, ih, List.flatMap_cons]

@[simp] theorem Pair.tracesAll_eq (ps : List Pair) : Pair.tracesAll ps = ps.flatMap Pair.traces := by
  induction ps with
  | nil => rfl
  | cons p ps ih => rw [Pair.tracesAll, ih, List.flatMap_cons]

@[simp] theorem Arm.tracesAll_eq (arms : List Arm) : Arm.tracesAll arms = arms.flatMap Arm.traces := by
  induction arms with
  | nil => rfl
  | cons a arms ih => rw [Arm.tracesAll, ih, List.flatMap_cons]

@[simp] theorem Stmt.tracesAll_eq (ss : List Stmt) : Stmt.tracesAll ss = ss.flatMap Stmt.traces := by
  induction ss with
  | nil => rfl
  | cons s ss ih => rw [Stmt.tracesAll, ih, List.flatMap_cons]

@[simp] theorem Branch.tracesAll_eq (bs : List Branch) :
    Branch.tracesAll bs = bs.flatMap Branch.traces := by
  induction bs with
  | nil => rfl
  | cons b bs ih => rw [Branch.tracesAll, ih, List.flatMap_cons]

@[simp] theorem Arm.traces?_eq (a? : Option Arm) : Arm.traces? a? = a?.elim [] Arm.traces := by
  cases a? <;> rfl

@[simp] theorem Block.traces?_eq (b? : Option Block) : Block.traces? b? = b?.elim [] Block.traces := by
  cases b? <;> rfl

end WattFront
