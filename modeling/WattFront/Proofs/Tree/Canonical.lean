import WattFront.Proofs.Token.Word
import WattFront.Tree.Basic

/-! # The canonical spelling of a tree

Every tree can be written down in one way that leaves no question about how it is put together: each
expression that stands inside another construct gets parentheses of its own, unless it is the object of a
property, the callee of a call, the target of an assignment or a statement by itself.

* `Program.words` — the words of the spelling, each of which is to become one token;
* `Program.spelling` — the text, with one space between any two words;
* `Program.levels` — how many expressions and blocks of the spelling are inside one another.
-/

namespace WattFront

def Ident.word (i : Ident) : Word :=
  ⟨.identifier, i.name⟩

namespace Word

def separated : List (List Word) → List Word
  | [] => []
  | [ws] => ws
  | ws :: groups => ws ++ TokenKind.comma.word :: separated groups

theorem separated_cons (us vs : List Word) (groups : List (List Word)) :
    separated (us :: vs :: groups) = us ++ TokenKind.comma.word :: separated (vs :: groups) := rfl

def bracketed (opening closing : TokenKind) (groups : List (List Word)) : List Word :=
  opening.word :: (separated groups ++ [closing.word])

def grouped (ws : List Word) : List Word :=
  TokenKind.openParen.word :: (ws ++ [TokenKind.closeParen.word])

def parameters (names : List Ident) : List Word :=
  bracketed .openParen .closeParen (names.map fun i => [i.word])

end Word

/-! ## Operators -/

def BinaryOp.token : BinaryOp → TokenKind
  | .and => .kwAnd
  | .or => .kwOr
  | .equals => .equals
  | .notEquals => .notEquals
  | .greater => .greater
  | .less => .less
  | .greaterEquals => .greaterEquals
  | .lessEquals => .lessEquals
  | .range => .dotDot
  | .impls => .kwImpls
  | .plus => .plus
  | .minus => .dash
  | .divide => .slash
  | .multiply => .star
  | .modulo => .percent

def UnaryOp.token : UnaryOp → TokenKind
  | .negate => .dash
  | .not => .not

def AssignOp.token : AssignOp → TokenKind
  | .assign => .assignment
  | .add => .plusEquals
  | .sub => .minusEquals
  | .mul => .starEquals
  | .div => .slashEquals

/-! ## Words -/

def Import.words (i : Import) : List Word :=
  ⟨.string, i.path⟩ :: match i.alias? with
    | none => []
    | some name => [TokenKind.kwWith.word, name.word]

/-- The words of imports: parentheses stand around several of them. -/
def wordsOfImports : List Import → List Word
  | [i] => i.words
  | list => Word.bracketed .openParen .closeParen (list.map Import.words)

mutual

/-- The words of an expression, without parentheses around it. -/
def Expr.words : Expr → List Word
  | .number value _ => [⟨.number, toString value⟩]
  | .bool value _ => [(if value then TokenKind.kwTrue else TokenKind.kwFalse).word]
  | .string value _ => [⟨.string, value⟩]
  | .symbol name _ => [⟨.identifier, name⟩]
  | .list elements _ => Word.bracketed .openBracket .closeBracket (Expr.wordsAll elements)
  | .map pairs _ => Word.bracketed .openCurly .closeCurly (Pair.wordsAll pairs)
  | .member object property _ => object.words ++ [TokenKind.dot.word, property.word]
  | .call callee arguments propagate _ =>
    callee.words ++ (Word.bracketed .openParen .closeParen (Expr.wordsAll arguments)
      ++ if propagate then [TokenKind.question.word] else [])
  | .binary operator left right _ =>
    Word.grouped left.words ++ operator.token.word :: Word.grouped right.words
  | .unary operator operand _ => operator.token.word :: Word.grouped operand.words
  | .new type arguments _ =>
    TokenKind.kwNew.word :: type.word
      :: Word.bracketed .openParen .closeParen (Expr.wordsAll arguments)
  | .choice scrutinee cases fallback? _ =>
    TokenKind.kwMatch.word
      :: (Word.grouped scrutinee.words ++ (Arm.wordsAll cases ++ Arm.words? fallback?))
  | .lambda parameters body _ =>
    TokenKind.kwLambda.word
      :: (Word.parameters parameters ++ TokenKind.arrow.word :: Word.grouped body.words)
  | .function parameters body _ =>
    TokenKind.kwFn.word :: (Word.parameters parameters ++ body.words)

def Expr.wordsAll : List Expr → List (List Word)
  | [] => []
  | e :: es => Word.grouped e.words :: Expr.wordsAll es

def Pair.words : Pair → List Word
  | ⟨key, value, _⟩ => Word.grouped key.words ++ TokenKind.colon.word :: Word.grouped value.words

def Pair.wordsAll : List Pair → List (List Word)
  | [] => []
  | p :: ps => p.words :: Pair.wordsAll ps

def Arm.words : Arm → List Word
  | ⟨pattern, body, _⟩ => Word.grouped pattern.words ++ body.words

def Arm.wordsAll : List Arm → List Word
  | [] => []
  | a :: arms => (TokenKind.kwCase.word :: a.words) ++ Arm.wordsAll arms

def Arm.words? : Option Arm → List Word
  | none => []
  | some a => TokenKind.kwDefault.word :: a.words

def ArmBody.words : ArmBody → List Word
  | .expr value => TokenKind.arrow.word :: Word.grouped value.words
  | .block body => body.words

def Block.words : Block → List Word
  | ⟨statements, _⟩ =>
    TokenKind.openCurly.word :: (Stmt.wordsAll statements ++ [TokenKind.closeCurly.word])

def Block.words? : Option Block → List Word
  | none => []
  | some b => b.words

def Block.otherwise? : Option Block → List Word
  | none => []
  | some b => TokenKind.kwElse.word :: b.words

def Stmt.words : Stmt → List Word
  | .returnValue value _ => TokenKind.kwReturn.word :: Word.grouped value.words
  | .whileLoop condition body _ =>
    TokenKind.kwWhile.word :: (Word.grouped condition.words ++ body.words)
  | .conditional condition body elifs otherwise? _ =>
    TokenKind.kwIf.word :: (Word.grouped condition.words
      ++ (body.words ++ (Branch.wordsAll elifs ++ Block.otherwise? otherwise?)))
  | .forLoop element iterable body _ =>
    TokenKind.kwFor.word :: element.word :: TokenKind.kwIn.word
      :: (Word.grouped iterable.words ++ body.words)
  | .breakLoop _ => [TokenKind.kwBreak.word]
  | .continueLoop _ => [TokenKind.kwContinue.word]
  | .expression value _ => value.words
  | .native name symbol _ =>
    [TokenKind.kwNative.word, name.word, TokenKind.arrow.word, ⟨.string, symbol⟩]
  | .imports list _ => TokenKind.kwImport.word :: wordsOfImports list
  | .assign target operator value _ =>
    target.words ++ operator.token.word :: Word.grouped value.words
  | .define target value _ => target.words ++ TokenKind.define.word :: Word.grouped value.words
  | .function definition _ => definition.words

def Stmt.wordsAll : List Stmt → List Word
  | [] => []
  | s :: ss => s.words ++ Stmt.wordsAll ss

def Branch.words : Branch → List Word
  | ⟨condition, body, _⟩ =>
    TokenKind.kwElif.word :: (Word.grouped condition.words ++ body.words)

def Branch.wordsAll : List Branch → List Word
  | [] => []
  | b :: bs => b.words ++ Branch.wordsAll bs

def Function.words : Function → List Word
  | ⟨name, parameters?, body?, _⟩ =>
    TokenKind.kwFn.word :: name.word
      :: (parameters?.elim [] Word.parameters ++ Block.words? body?)

end

attribute [simp] Expr.words Pair.words Arm.words ArmBody.words Block.words Stmt.words Branch.words
  Function.words

def wordsOfTraits : Option (List Ident) → List Word
  | none => []
  | some names => ⟨.identifier, "impl"⟩ :: Word.separated (names.map fun i => [i.word])

def Definition.words : Definition → List Word
  | .function f => f.words
  | .trait t =>
    TokenKind.kwTrait.word :: t.name.word :: TokenKind.openCurly.word
      :: (t.methods.flatMap Function.words ++ [TokenKind.closeCurly.word])
  | .type t =>
    TokenKind.kwType.word :: t.name.word
      :: (t.parameters?.elim [] Word.parameters ++ (wordsOfTraits t.traits? ++ Block.words? t.body?))
  | .unit u => TokenKind.kwUnit.word :: u.name.word :: Block.words? u.body?

def Item.words : Item → List Word
  | .definition d => d.words
  | .statement s => s.words

def Program.words (p : Program) : List Word :=
  p.items.flatMap Item.words

/-- The canonical spelling of a program. -/
def Program.spelling (p : Program) : List Char :=
  Word.spaced p.words

/-! ## Levels of nesting -/

mutual

/-- How many levels the parts of an expression open inside the level that it is read at. An expression
in parentheses opens one level for the parentheses and one for what is between them. -/
def Expr.levels : Expr → Nat
  | .number .. | .bool .. | .string .. | .symbol .. => 0
  | .list elements _ => Expr.levelsAll elements
  | .map pairs _ => Pair.levelsAll pairs
  | .member object _ _ => object.levels
  | .call callee arguments _ _ => max callee.levels (Expr.levelsAll arguments)
  | .binary _ left right _ => max (left.levels + 1) (right.levels + 2)
  | .unary _ operand _ => operand.levels + 2
  | .new _ arguments _ => Expr.levelsAll arguments
  | .choice scrutinee cases fallback? _ =>
    max (scrutinee.levels + 2) (max (Arm.levelsAll cases) (Arm.levels? fallback?))
  | .lambda _ body _ => body.levels + 2
  | .function _ body _ => body.levels

def Expr.levelsAll : List Expr → Nat
  | [] => 0
  | e :: es => max (e.levels + 2) (Expr.levelsAll es)

def Pair.levels : Pair → Nat
  | ⟨key, value, _⟩ => max (key.levels + 2) (value.levels + 2)

def Pair.levelsAll : List Pair → Nat
  | [] => 0
  | p :: ps => max p.levels (Pair.levelsAll ps)

def Arm.levels : Arm → Nat
  | ⟨pattern, body, _⟩ => max (pattern.levels + 2) body.levels

def Arm.levelsAll : List Arm → Nat
  | [] => 0
  | a :: arms => max a.levels (Arm.levelsAll arms)

def Arm.levels? : Option Arm → Nat
  | none => 0
  | some a => a.levels

def ArmBody.levels : ArmBody → Nat
  | .expr value => value.levels + 2
  | .block body => body.levels

def Block.levels : Block → Nat
  | ⟨statements, _⟩ => Stmt.levelsAll statements + 1

def Block.levels? : Option Block → Nat
  | none => 0
  | some b => b.levels

def Stmt.levels : Stmt → Nat
  | .returnValue value _ => value.levels + 2
  | .whileLoop condition body _ => max (condition.levels + 2) body.levels
  | .conditional condition body elifs otherwise? _ =>
    max (max (condition.levels + 2) body.levels) (max (Branch.levelsAll elifs) (Block.levels? otherwise?))
  | .forLoop _ iterable body _ => max (iterable.levels + 2) body.levels
  | .breakLoop _ | .continueLoop _ | .native .. | .imports .. => 0
  | .expression value _ => value.levels
  | .assign target _ value _ => max target.levels (value.levels + 2)
  | .define target value _ => max target.levels (value.levels + 2)
  | .function definition _ => definition.levels

def Stmt.levelsAll : List Stmt → Nat
  | [] => 0
  | s :: ss => max s.levels (Stmt.levelsAll ss)

def Branch.levels : Branch → Nat
  | ⟨condition, body, _⟩ => max (condition.levels + 2) body.levels

def Branch.levelsAll : List Branch → Nat
  | [] => 0
  | b :: bs => max b.levels (Branch.levelsAll bs)

def Function.levels : Function → Nat
  | ⟨_, _, body?, _⟩ => Block.levels? body?

end

attribute [simp] Expr.levels Pair.levels Arm.levels ArmBody.levels Block.levels Stmt.levels
  Branch.levels Function.levels

def Definition.levels : Definition → Nat
  | .function f => f.levels
  | .trait t => (t.methods.map Function.levels).foldr max 0
  | .type t => Block.levels? t.body?
  | .unit u => Block.levels? u.body?

def Item.levels : Item → Nat
  | .definition d => d.levels
  | .statement s => s.levels

/-- How many levels the spelling of a program opens. -/
def Program.levels (p : Program) : Nat :=
  (p.items.map Item.levels).foldr max 0

/-! ## Lists of trees -/

@[simp] theorem Expr.wordsAll_eq (es : List Expr) :
    Expr.wordsAll es = es.map fun e => Word.grouped e.words := by
  induction es with
  | nil => rfl
  | cons e es ih => rw [Expr.wordsAll, ih, List.map_cons]

@[simp] theorem Pair.wordsAll_eq (ps : List Pair) : Pair.wordsAll ps = ps.map Pair.words := by
  induction ps with
  | nil => rfl
  | cons p ps ih => rw [Pair.wordsAll, ih, List.map_cons]

@[simp] theorem Arm.wordsAll_eq (arms : List Arm) :
    Arm.wordsAll arms = arms.flatMap fun a => TokenKind.kwCase.word :: a.words := by
  induction arms with
  | nil => rfl
  | cons a arms ih => rw [Arm.wordsAll, ih, List.flatMap_cons]

@[simp] theorem Stmt.wordsAll_eq (ss : List Stmt) : Stmt.wordsAll ss = ss.flatMap Stmt.words := by
  induction ss with
  | nil => rfl
  | cons s ss ih => rw [Stmt.wordsAll, ih, List.flatMap_cons]

@[simp] theorem Branch.wordsAll_eq (bs : List Branch) :
    Branch.wordsAll bs = bs.flatMap Branch.words := by
  induction bs with
  | nil => rfl
  | cons b bs ih => rw [Branch.wordsAll, ih, List.flatMap_cons]

@[simp] theorem Arm.words?_eq (a? : Option Arm) :
    Arm.words? a? = a?.elim [] fun a => TokenKind.kwDefault.word :: a.words := by
  cases a? <;> rfl

@[simp] theorem Block.words?_eq (b? : Option Block) : Block.words? b? = b?.elim [] Block.words := by
  cases b? <;> rfl

@[simp] theorem Block.otherwise?_eq (b? : Option Block) :
    Block.otherwise? b? = b?.elim [] fun b => TokenKind.kwElse.word :: b.words := by
  cases b? <;> rfl

section

variable {n : Nat}

theorem Expr.levelsAll_le {es : List Expr} :
    Expr.levelsAll es ≤ n ↔ ∀ e ∈ es, e.levels + 2 ≤ n := by
  induction es with
  | nil => simp [Expr.levelsAll]
  | cons e es ih => rw [Expr.levelsAll, Nat.max_le, ih, List.forall_mem_cons]

theorem Pair.levelsAll_le {ps : List Pair} : Pair.levelsAll ps ≤ n ↔ ∀ p ∈ ps, p.levels ≤ n := by
  induction ps with
  | nil => simp [Pair.levelsAll]
  | cons p ps ih => rw [Pair.levelsAll, Nat.max_le, ih, List.forall_mem_cons]

theorem Arm.levelsAll_le {arms : List Arm} : Arm.levelsAll arms ≤ n ↔ ∀ a ∈ arms, a.levels ≤ n := by
  induction arms with
  | nil => simp [Arm.levelsAll]
  | cons a arms ih => rw [Arm.levelsAll, Nat.max_le, ih, List.forall_mem_cons]

theorem Arm.levels?_le {a? : Option Arm} : Arm.levels? a? ≤ n ↔ ∀ a ∈ a?, a.levels ≤ n := by
  cases a? <;> simp [Arm.levels?]

theorem Block.levels?_le {b? : Option Block} : Block.levels? b? ≤ n ↔ ∀ b ∈ b?, b.levels ≤ n := by
  cases b? <;> simp [Block.levels?]

theorem Stmt.levelsAll_le {ss : List Stmt} : Stmt.levelsAll ss ≤ n ↔ ∀ s ∈ ss, s.levels ≤ n := by
  induction ss with
  | nil => simp [Stmt.levelsAll]
  | cons s ss ih => rw [Stmt.levelsAll, Nat.max_le, ih, List.forall_mem_cons]

theorem Branch.levelsAll_le {bs : List Branch} :
    Branch.levelsAll bs ≤ n ↔ ∀ b ∈ bs, b.levels ≤ n := by
  induction bs with
  | nil => simp [Branch.levelsAll]
  | cons b bs ih => rw [Branch.levelsAll, Nat.max_le, ih, List.forall_mem_cons]

theorem foldr_max_le {ns : List Nat} : ns.foldr max 0 ≤ n ↔ ∀ m ∈ ns, m ≤ n := by
  induction ns with
  | nil => simp
  | cons m ns ih => rw [List.foldr_cons, Nat.max_le, ih, List.forall_mem_cons]

end

end WattFront
