import WattFront.Proofs.Tree.Bare
import WattFront.Proofs.Tree.SExpr
import WattFront.Proofs.Tree.WellFormed
import WattFront.Tree.Printer

/-! # The written form of trees as s-expressions

Each tree has an s-expression, and the written form of the tree is the text of it. The first part of a group
in parentheses is a *head*, a word that says which form the tree has; the other parts are those of the tree.

* `Expr.sexpr` and its companions — the s-expression of a tree;
* `writesSExpr_hereditary` — the written form of a tree is the text of its s-expression;
* `plainSExpr_hereditary` — the s-expression is plain if the names and numbers of the tree can be written.
-/

namespace WattFront

/-- The words that say which form a tree has. -/
inductive Head where
  | list
  | map
  | pair
  | member
  | call (propagate : Bool)
  | binary (operator : BinaryOp)
  | not
  | new
  | choice
  | case
  | fallback
  | lambda
  | function
  | block
  | returnValue
  | whileLoop
  | conditional
  | elif
  | otherwise
  | forLoop
  | breakLoop
  | continueLoop
  | native
  | imports
  | assign (operator : AssignOp)
  | define
  | trait
  | type
  | impl
  | unit
deriving DecidableEq

namespace Head

def text : Head → String
  | .list => "list"
  | .map => "map"
  | .pair => ":"
  | .member => "."
  | .call propagate => if propagate then "call?" else "call"
  | .binary operator => operator.symbol
  | .not => "!"
  | .new => "new"
  | .choice => "match"
  | .case => "case"
  | .fallback => "default"
  | .lambda => "lambda"
  | .function => "fn"
  | .block => "block"
  | .returnValue => "return"
  | .whileLoop => "while"
  | .conditional => "if"
  | .elif => "elif"
  | .otherwise => "else"
  | .forLoop => "for"
  | .breakLoop => "break"
  | .continueLoop => "continue"
  | .native => "native"
  | .imports => "import"
  | .assign operator => operator.symbol
  | .define => ":="
  | .trait => "trait"
  | .type => "type"
  | .impl => "impl"
  | .unit => "unit"

def all : List Head :=
  [.list, .map, .pair, .member, .call false, .call true, .not, .new, .choice, .case, .fallback, .lambda,
    .function, .block, .returnValue, .whileLoop, .conditional, .elif, .otherwise, .forLoop, .breakLoop,
    .continueLoop, .native, .imports, .define, .trait, .type, .impl, .unit,
    .binary .and, .binary .or, .binary .equals, .binary .notEquals, .binary .greater, .binary .less,
    .binary .greaterEquals, .binary .lessEquals, .binary .range, .binary .impls, .binary .plus,
    .binary .minus, .binary .divide, .binary .multiply, .binary .modulo,
    .assign .assign, .assign .add, .assign .sub, .assign .mul, .assign .div]

theorem mem_all (head : Head) : head ∈ all := by
  cases head with
  | call propagate => cases propagate <;> decide
  | binary operator => cases operator <;> decide
  | assign operator => cases operator <;> decide
  | _ => decide

/-- No two heads are written alike. -/
theorem text_inj {head head' : Head} (h : head.text = head'.text) : head = head' := by
  have hread : ∀ head ∈ all, all.find? (·.text = head.text) = some head := by decide +kernel
  have hleft := hread head head.mem_all
  rw [h, hread head' head'.mem_all, Option.some.injEq] at hleft
  exact hleft.symm

/-- Heads hold no character that ends an atom. -/
theorem text_plain (head : Head) : (SExpr.atom head.text).Plain := by
  have hall : ∀ head ∈ all, head.text.toList ≠ []
      ∧ head.text.toList.all (fun c => decide (c ∉ SExpr.reserved)) = true := by decide +kernel
  obtain ⟨hne, hplain⟩ := hall head head.mem_all
  exact SExpr.plain_of_all hne hplain

end Head

/-- A prefixed minus is written like one between operands. -/
def UnaryOp.head : UnaryOp → Head
  | .negate => .binary .minus
  | .not => .not

@[simp] theorem UnaryOp.head_eq_iff {op : UnaryOp} {head : Head} :
    op.head = head ↔ op = .negate ∧ head = .binary .minus ∨ op = .not ∧ head = .not := by
  cases op <;> simp [UnaryOp.head, eq_comm]

@[simp] theorem UnaryOp.eq_head_iff {op : UnaryOp} {head : Head} :
    head = op.head ↔ op = .negate ∧ head = .binary .minus ∨ op = .not ∧ head = .not := by
  rw [eq_comm, UnaryOp.head_eq_iff]

namespace SExpr

def form (head : Head) (parts : List SExpr) : SExpr :=
  .round (.atom head.text :: parts)

variable {head head' : Head} {parts parts' : List SExpr} {text : String}

@[simp] theorem form_inj : form head parts = form head' parts' ↔ head = head' ∧ parts = parts' := by
  simp only [form, round.injEq, List.cons.injEq, atom.injEq]
  exact and_congr_left fun _ => ⟨Head.text_inj, congrArg Head.text⟩

@[simp] theorem form_ne_atom : form head parts ≠ .atom text :=
  SExpr.noConfusion

@[simp] theorem atom_ne_form : .atom text ≠ form head parts :=
  SExpr.noConfusion

@[simp] theorem form_ne_quoted : form head parts ≠ .quoted text :=
  SExpr.noConfusion

@[simp] theorem quoted_ne_form : .quoted text ≠ form head parts :=
  SExpr.noConfusion

@[simp] theorem form_plain : (form head parts).Plain ↔ ∀ s ∈ parts, s.Plain := by
  constructor
  · intro h
    cases h with
    | round h => exact (List.forall_mem_cons.1 h).2
  · intro h
    exact .round (List.forall_mem_cons.2 ⟨head.text_plain, h⟩)

/-- The text of parts that stand behind another one. -/
def behind (parts : List SExpr) : List Char :=
  parts.flatMap fun s => ' ' :: s.chars

@[simp] theorem behind_nil : behind [] = [] := rfl

@[simp] theorem behind_cons (s : SExpr) (parts : List SExpr) :
    behind (s :: parts) = ' ' :: (s.chars ++ behind parts) := rfl

@[simp] theorem behind_append (parts parts' : List SExpr) :
    behind (parts ++ parts') = behind parts ++ behind parts' :=
  List.flatMap_append

@[simp] theorem form_chars :
    (form head parts).chars = '(' :: (head.text.toList ++ (behind parts ++ [')'])) := by
  simp [form, chars, intercalate_cons, behind, List.flatMap_map]

def names (is : List Ident) : SExpr :=
  .square (is.map fun i => .atom i.name)

def names? (is? : Option (List Ident)) : List SExpr :=
  is?.toList.map names

end SExpr

open SExpr (form form_chars form_inj form_plain names names?)

/-! ## The s-expression of a tree -/

def Import.sexpr (i : Import) : SExpr :=
  .round (.quoted i.path :: i.alias?.elim [] fun name => [.atom "with", .atom name.name])

mutual

/-- The s-expression of an expression. -/
def Expr.sexpr : Expr → SExpr
  | .number value _ => .atom (toString value)
  | .bool value _ => .atom (if value then "true" else "false")
  | .string value _ => .quoted value
  | .symbol name _ => .atom name
  | .list elements _ => form .list (Expr.sexprAll elements)
  | .map pairs _ => form .map (Pair.sexprAll pairs)
  | .member object property _ => form .member [object.sexpr, .atom property.name]
  | .call callee arguments propagate _ => form (.call propagate) (callee.sexpr :: Expr.sexprAll arguments)
  | .binary operator left right _ => form (.binary operator) [left.sexpr, right.sexpr]
  | .unary operator operand _ => form operator.head [operand.sexpr]
  | .new type arguments _ => form .new (.atom type.name :: Expr.sexprAll arguments)
  | .choice scrutinee cases fallback? _ =>
    form .choice (scrutinee.sexpr :: (Arm.sexprAll cases ++ Arm.sexpr? fallback?))
  | .lambda parameters body _ => form .lambda [names parameters, body.sexpr]
  | .function parameters body _ => form .function [names parameters, body.sexpr]

def Expr.sexprAll : List Expr → List SExpr
  | [] => []
  | e :: es => e.sexpr :: Expr.sexprAll es

def Pair.sexpr : Pair → SExpr
  | ⟨key, value, _⟩ => form .pair [key.sexpr, value.sexpr]

def Pair.sexprAll : List Pair → List SExpr
  | [] => []
  | p :: ps => p.sexpr :: Pair.sexprAll ps

def Arm.parts : Arm → List SExpr
  | ⟨pattern, body, _⟩ => [pattern.sexpr, body.sexpr]

def Arm.sexprAll : List Arm → List SExpr
  | [] => []
  | a :: arms => form .case a.parts :: Arm.sexprAll arms

def Arm.sexpr? : Option Arm → List SExpr
  | none => []
  | some a => [form .fallback a.parts]

def ArmBody.sexpr : ArmBody → SExpr
  | .expr value => value.sexpr
  | .block body => body.sexpr

def Block.sexpr : Block → SExpr
  | ⟨statements, _⟩ => form .block (Stmt.sexprAll statements)

def Block.sexpr? : Option Block → List SExpr
  | none => []
  | some b => [b.sexpr]

def Block.otherwiseSExpr? : Option Block → List SExpr
  | none => []
  | some b => [form .otherwise [b.sexpr]]

def Stmt.sexpr : Stmt → SExpr
  | .returnValue value _ => form .returnValue [value.sexpr]
  | .whileLoop condition body _ => form .whileLoop [condition.sexpr, body.sexpr]
  | .conditional condition body elifs otherwise? _ =>
    form .conditional
      (condition.sexpr :: body.sexpr :: (Branch.sexprAll elifs ++ Block.otherwiseSExpr? otherwise?))
  | .forLoop element iterable body _ => form .forLoop [.atom element.name, iterable.sexpr, body.sexpr]
  | .breakLoop _ => form .breakLoop []
  | .continueLoop _ => form .continueLoop []
  | .expression value _ => value.sexpr
  | .native name symbol _ => form .native [.atom name.name, .quoted symbol]
  | .imports list _ => form .imports (list.map Import.sexpr)
  | .assign target operator value _ => form (.assign operator) [target.sexpr, value.sexpr]
  | .define target value _ => form .define [target.sexpr, value.sexpr]
  | .function definition _ => definition.sexpr

def Stmt.sexprAll : List Stmt → List SExpr
  | [] => []
  | s :: ss => s.sexpr :: Stmt.sexprAll ss

def Branch.sexpr : Branch → SExpr
  | ⟨condition, body, _⟩ => form .elif [condition.sexpr, body.sexpr]

def Branch.sexprAll : List Branch → List SExpr
  | [] => []
  | b :: bs => b.sexpr :: Branch.sexprAll bs

def Function.sexpr : Function → SExpr
  | ⟨name, parameters?, body?, _⟩ =>
    form .function (.atom name.name :: (names? parameters? ++ Block.sexpr? body?))

end

attribute [simp] Expr.sexpr Pair.sexpr Arm.parts ArmBody.sexpr Block.sexpr Stmt.sexpr
  Branch.sexpr Function.sexpr

def traitsSExpr? (names? : Option (List Ident)) : List SExpr :=
  names?.toList.map fun is => form .impl (is.map fun i => .atom i.name)

def Definition.sexpr : Definition → SExpr
  | .function d => d.sexpr
  | .trait d => form .trait (.atom d.name.name :: d.methods.map Function.sexpr)
  | .type d =>
    form .type (.atom d.name.name
      :: (names? d.parameters? ++ (traitsSExpr? d.traits? ++ Block.sexpr? d.body?)))
  | .unit d => form .unit (.atom d.name.name :: Block.sexpr? d.body?)

def Item.sexpr : Item → SExpr
  | .definition d => d.sexpr
  | .statement s => s.sexpr

/-! ## Lists of trees -/

@[simp] theorem Expr.sexprAll_eq (es : List Expr) : Expr.sexprAll es = es.map Expr.sexpr := by
  induction es with
  | nil => rfl
  | cons e es ih => rw [Expr.sexprAll, ih, List.map_cons]

@[simp] theorem Pair.sexprAll_eq (ps : List Pair) : Pair.sexprAll ps = ps.map Pair.sexpr := by
  induction ps with
  | nil => rfl
  | cons p ps ih => rw [Pair.sexprAll, ih, List.map_cons]

@[simp] theorem Arm.sexprAll_eq (arms : List Arm) :
    Arm.sexprAll arms = arms.map fun a => form .case a.parts := by
  induction arms with
  | nil => rfl
  | cons a arms ih => rw [Arm.sexprAll, ih, List.map_cons]

@[simp] theorem Stmt.sexprAll_eq (ss : List Stmt) : Stmt.sexprAll ss = ss.map Stmt.sexpr := by
  induction ss with
  | nil => rfl
  | cons s ss ih => rw [Stmt.sexprAll, ih, List.map_cons]

@[simp] theorem Branch.sexprAll_eq (bs : List Branch) : Branch.sexprAll bs = bs.map Branch.sexpr := by
  induction bs with
  | nil => rfl
  | cons b bs ih => rw [Branch.sexprAll, ih, List.map_cons]

@[simp] theorem Arm.sexpr?_eq (a? : Option Arm) :
    Arm.sexpr? a? = a?.toList.map fun a => form .fallback a.parts := by
  cases a? <;> rfl

@[simp] theorem Block.sexpr?_eq (b? : Option Block) : Block.sexpr? b? = b?.toList.map Block.sexpr := by
  cases b? <;> rfl

@[simp] theorem Block.otherwiseSExpr?_eq (b? : Option Block) :
    Block.otherwiseSExpr? b? = b?.toList.map fun b => form .otherwise [b.sexpr] := by
  cases b? <;> rfl

theorem Expr.textAll_eq (es : List Expr) : Expr.textAll es = String.join (es.map fun e => spaced e.text) := by
  induction es with
  | nil => rfl
  | cons e es ih => rw [Expr.textAll, ih, List.map_cons, String.join_cons]

theorem Pair.textAll_eq (ps : List Pair) : Pair.textAll ps = String.join (ps.map fun p => spaced p.text) := by
  induction ps with
  | nil => rfl
  | cons p ps ih => rw [Pair.textAll, ih, List.map_cons, String.join_cons]

theorem Arm.textAll_eq (arms : List Arm) :
    Arm.textAll arms = String.join (arms.map fun a => spaced ("(case " ++ a.text ++ ")")) := by
  induction arms with
  | nil => rfl
  | cons a arms ih => rw [Arm.textAll, ih, List.map_cons, String.join_cons]

theorem Stmt.textAll_eq (ss : List Stmt) : Stmt.textAll ss = String.join (ss.map fun s => spaced s.text) := by
  induction ss with
  | nil => rfl
  | cons s ss ih => rw [Stmt.textAll, ih, List.map_cons, String.join_cons]

theorem Branch.textAll_eq (bs : List Branch) :
    Branch.textAll bs = String.join (bs.map fun b => spaced b.text) := by
  induction bs with
  | nil => rfl
  | cons b bs ih => rw [Branch.textAll, ih, List.map_cons, String.join_cons]

/-! ## The written form is the text of the s-expression -/

theorem toList_join_spaced {α : Type} {f : α → String} {g : α → SExpr} {as : List α}
    (h : ∀ a ∈ as, (f a).toList = (g a).chars) :
    (String.join (as.map fun a => spaced (f a))).toList = SExpr.behind (as.map g) := by
  induction as with
  | nil => rfl
  | cons a as ih =>
    obtain ⟨ha, has⟩ := List.forall_mem_cons.1 h
    rw [List.map_cons, String.join_cons, String.toList_append, ih has]
    simp [spaced, ha]

theorem writeParameters_toList (is : List Ident) : (writeParameters is).toList = (names is).chars := by
  simp [writeParameters, names, SExpr.chars, String.toList_intercalate, Function.comp_def]

theorem writeParameters?_toList (is? : Option (List Ident)) :
    (writeParameters? is?).toList = SExpr.behind (names? is?) := by
  cases is? with
  | none => rfl
  | some is => simp [writeParameters?, spaced, names?, writeParameters_toList]

theorem Import.text_toList (i : Import) : i.text.toList = i.sexpr.chars := by
  obtain ⟨path, alias?, s⟩ := i
  cases alias? <;> simp [Import.text, Import.sexpr, SExpr.chars]

/-- The written form of a tree is the text of its s-expression. An arm is written as the parts of one, without
a head. -/
def writesSExpr : TreeProperty where
  expr e := e.text.toList = e.sexpr.chars
  pair p := p.text.toList = p.sexpr.chars
  arm a := ' ' :: a.text.toList = SExpr.behind a.parts
  body b := b.text.toList = b.sexpr.chars
  block b := b.text.toList = b.sexpr.chars
  stmt s := s.text.toList = s.sexpr.chars
  branch b := b.text.toList = b.sexpr.chars
  function f := f.text.toList = f.sexpr.chars

theorem Expr.toList_textAll {es : List Expr} (h : ∀ e ∈ es, writesSExpr.expr e) :
    (Expr.textAll es).toList = SExpr.behind (es.map Expr.sexpr) := by
  rw [Expr.textAll_eq, toList_join_spaced h]

theorem Arm.toList_textAll {arms : List Arm} (h : ∀ a ∈ arms, writesSExpr.arm a) :
    (Arm.textAll arms).toList = SExpr.behind (arms.map fun a => form .case a.parts) := by
  rw [Arm.textAll_eq]
  refine toList_join_spaced (g := fun a : Arm => form .case a.parts) ?_
  intro a member
  rw [form_chars, ← h a member]
  simp [Head.text]

theorem Arm.toList_text? {a? : Option Arm} (h : ∀ a ∈ a?, writesSExpr.arm a) :
    (Arm.text? a?).toList = SExpr.behind (a?.toList.map fun a => form .fallback a.parts) := by
  cases a? with
  | none => rfl
  | some a =>
    have ha : ' ' :: a.text.toList = SExpr.behind a.parts := h a rfl
    simp [Arm.text?, spaced, Head.text, ← ha]

theorem Block.toList_text? {b? : Option Block} (h : ∀ b ∈ b?, writesSExpr.block b) :
    (Block.text? b?).toList = SExpr.behind (b?.toList.map Block.sexpr) := by
  cases b? with
  | none => rfl
  | some b =>
    have hb : b.text.toList = b.sexpr.chars := h b rfl
    simp [Block.text?, spaced, hb]

theorem Block.toList_textElse? {b? : Option Block} (h : ∀ b ∈ b?, writesSExpr.block b) :
    (Block.textElse? b?).toList = SExpr.behind (b?.toList.map fun b => form .otherwise [b.sexpr]) := by
  cases b? with
  | none => rfl
  | some b =>
    have hb : b.text.toList = b.sexpr.chars := h b rfl
    simp [Block.textElse?, spaced, Head.text, hb]

theorem writesSExpr_hereditary : writesSExpr.Hereditary where
  number value s := rfl
  bool value s := by cases value <;> rfl
  string value s := rfl
  symbol name s := rfl
  list s hes := by
    simp [writesSExpr, Expr.text, Head.text, Expr.toList_textAll hes]
  map s hps := by
    simp [writesSExpr, Expr.text, Head.text, Pair.textAll_eq, toList_join_spaced hps]
  member i s hobject := by
    simp only [writesSExpr] at hobject
    simp [writesSExpr, Expr.text, Head.text, SExpr.chars, hobject]
  call propagate s hcallee hes := by
    simp only [writesSExpr] at hcallee
    cases propagate <;>
      simp [writesSExpr, Expr.text, Head.text, hcallee, Expr.toList_textAll hes]
  binary op s hleft hright := by
    simp only [writesSExpr] at hleft hright
    simp [writesSExpr, Expr.text, Head.text, hleft, hright]
  unary op s hoperand := by
    simp only [writesSExpr] at hoperand
    cases op <;>
      simp [writesSExpr, Expr.text, UnaryOp.head, Head.text, UnaryOp.symbol, BinaryOp.symbol, hoperand]
  new i s hes := by
    simp [writesSExpr, Expr.text, Head.text, SExpr.chars, Expr.toList_textAll hes]
  choice s hscrutinee harms hfallback := by
    simp only [writesSExpr] at hscrutinee
    simp [writesSExpr, Expr.text, Head.text, hscrutinee, Arm.toList_textAll harms, Arm.toList_text? hfallback]
  lambda is s hbody := by
    simp only [writesSExpr] at hbody
    simp [writesSExpr, Expr.text, Head.text, hbody, writeParameters_toList]
  anonymous is s hbody := by
    simp only [writesSExpr] at hbody
    simp [writesSExpr, Expr.text, Head.text, hbody, writeParameters_toList]
  pair s hkey hvalue := by
    simp only [writesSExpr] at hkey hvalue
    simp [writesSExpr, Pair.text, Head.text, hkey, hvalue]
  arm s hpattern hbody := by
    simp only [writesSExpr] at hpattern hbody
    simp [writesSExpr, Arm.text, hpattern, hbody]
  exprBody hvalue := hvalue
  blockBody hbody := hbody
  block s hss := by
    simp [writesSExpr, Block.text, Head.text, Stmt.textAll_eq, toList_join_spaced hss]
  returnValue s hvalue := by
    simp only [writesSExpr] at hvalue
    simp [writesSExpr, Stmt.text, Head.text, hvalue]
  whileLoop s hcondition hbody := by
    simp only [writesSExpr] at hcondition hbody
    simp [writesSExpr, Stmt.text, Head.text, hcondition, hbody]
  conditional s hcondition hbody helifs hotherwise := by
    simp only [writesSExpr] at hcondition hbody
    simp [writesSExpr, Stmt.text, Head.text, hcondition, hbody, Branch.textAll_eq, toList_join_spaced helifs,
      Block.toList_textElse? hotherwise]
  forLoop i s hiterable hbody := by
    simp only [writesSExpr] at hiterable hbody
    simp [writesSExpr, Stmt.text, Head.text, SExpr.chars, hiterable, hbody]
  breakLoop s := by simp [writesSExpr, Stmt.text, Head.text]
  continueLoop s := by simp [writesSExpr, Stmt.text, Head.text]
  expression s hvalue := hvalue
  native i symbol s := by
    simp [writesSExpr, Stmt.text, Head.text, SExpr.chars]
  imports list s := by
    have htexts : (String.join (list.map fun i => spaced i.text)).toList = SExpr.behind (list.map Import.sexpr) :=
      toList_join_spaced fun i _ => i.text_toList
    simp [writesSExpr, Stmt.text, Head.text, htexts]
  assign op s htarget hvalue := by
    simp only [writesSExpr] at htarget hvalue
    simp [writesSExpr, Stmt.text, Head.text, htarget, hvalue]
  define s htarget hvalue := by
    simp only [writesSExpr] at htarget hvalue
    simp [writesSExpr, Stmt.text, Head.text, htarget, hvalue]
  nested s hdefinition := hdefinition
  branch s hcondition hbody := by
    simp only [writesSExpr] at hcondition hbody
    simp [writesSExpr, Branch.text, Head.text, hcondition, hbody]
  function i names? s hbody := by
    simp [writesSExpr, Function.text, Head.text, SExpr.chars, writeParameters?_toList, Block.toList_text? hbody]

/-- The written form of a definition is the text of its s-expression. -/
theorem Definition.text_toList (d : Definition) : d.text.toList = d.sexpr.chars := by
  have hbody (b? : Option Block) : ∀ b ∈ b?, writesSExpr.block b := writesSExpr_hereditary.ofBlock? b?
  cases d with
  | function f => exact writesSExpr_hereditary.ofFunction f
  | trait t =>
    have hmethods : (String.join (t.methods.map fun f => spaced f.text)).toList
        = SExpr.behind (t.methods.map Function.sexpr) :=
      toList_join_spaced fun f _ => writesSExpr_hereditary.ofFunction f
    simp [Definition.text, Definition.sexpr, Head.text, SExpr.chars, hmethods]
  | type t =>
    have htraits (is : List Ident) :
        (String.join (is.map fun i => spaced i.name)).toList
          = SExpr.behind (is.map fun i => .atom i.name) :=
      toList_join_spaced fun i _ => rfl
    obtain ⟨i, parameters?, traits?, body?, s⟩ := t
    cases traits? <;>
      simp [Definition.text, Definition.sexpr, Head.text, SExpr.chars, writeParameters?_toList,
        Block.toList_text? (hbody _), traitsSExpr?, htraits]
  | unit u =>
    simp [Definition.text, Definition.sexpr, Head.text, SExpr.chars, Block.toList_text? (hbody _)]

/-- The written form of an item is the text of its s-expression. -/
theorem Item.text_toList (i : Item) : i.text.toList = i.sexpr.chars := by
  cases i with
  | definition d => exact d.text_toList
  | statement s => exact writesSExpr_hereditary.ofStmt s

/-- The written form of a program is the texts of its items with line breaks between them. -/
theorem Program.text_toList (p : Program) :
    p.text.toList = ['\n'].intercalate ((p.items.map Item.sexpr).map SExpr.chars) := by
  simp [Program.text, String.toList_intercalate, Function.comp_def, Item.text_toList]

/-! ## S-expressions of trees are plain -/

theorem SExpr.plain_name {text : String} (h : IsName text) : (SExpr.atom text).Plain := by
  have hreserved : SExpr.reserved.all (!isWordPart ·) = true := by decide
  refine .atom h.nonempty fun c member hc => ?_
  have hnone := List.all_eq_true.1 hreserved c hc
  rw [h.all c member] at hnone
  cases hnone

theorem SExpr.plain_number {value : Int} (h : 0 ≤ value) : (SExpr.atom (toString value)).Plain := by
  have hreserved : SExpr.reserved.all (!Char.isDigit ·) = true := by decide
  obtain ⟨n, rfl⟩ := Int.eq_ofNat_of_zero_le h
  have hdigits : (toString (n : Int)).toList = Nat.toDigits 10 n := by
    change (toString n).toList = _
    rw [Nat.toString_eq_ofList_toDigits, String.toList_ofList]
  refine .atom ?_ ?_
  · rw [hdigits]
    exact Nat.toDigits_ne_nil
  · intro c member hc
    rw [hdigits] at member
    have hdigit := Nat.isDigit_of_mem_toDigits (by decide) (by decide) member
    have hnone := List.all_eq_true.1 hreserved c hc
    rw [hdigit] at hnone
    cases hnone

theorem SExpr.plain_bool (value : Bool) : (SExpr.atom (if value then "true" else "false")).Plain := by
  cases value <;> exact plain_of_all (by decide) (by decide)

theorem SExpr.plain_names {is : List Ident} (h : AllWritable (is.map Ident.trace)) : (names is).Plain := by
  refine .square ?_
  rw [List.forall_mem_map]
  exact fun i member => plain_name (h _ (List.mem_map_of_mem member))

theorem SExpr.plain_names? {is? : Option (List Ident)} (h : AllWritable (tracesOfParameters is?)) :
    ∀ s ∈ names? is?, s.Plain := by
  cases is? with
  | none => exact List.forall_mem_nil _
  | some is => exact List.forall_mem_singleton.2 (plain_names h)

theorem Import.sexpr_plain {i : Import} (h : AllWritable i.traces) : i.sexpr.Plain := by
  obtain ⟨path, alias?, s⟩ := i
  cases alias? with
  | none => exact .round (List.forall_mem_singleton.2 .quoted)
  | some name =>
    have hword : (SExpr.atom "with").Plain := SExpr.plain_of_all (by decide) (by decide)
    simp only [Import.traces, Option.toList_some, List.map_cons, AllWritable.cons_iff] at h
    refine .round (List.forall_mem_cons.2 ⟨.quoted, List.forall_mem_cons.2 ⟨hword, ?_⟩⟩)
    exact List.forall_mem_singleton.2 (SExpr.plain_name h.2.1)

/-- The s-expression of a tree is plain if the names and numbers of the tree can be written. -/
def plainSExpr : TreeProperty where
  expr e := AllWritable e.traces → e.sexpr.Plain
  pair p := AllWritable p.traces → p.sexpr.Plain
  arm a := AllWritable a.traces → ∀ s ∈ a.parts, s.Plain
  body b := AllWritable b.traces → b.sexpr.Plain
  block b := AllWritable b.traces → b.sexpr.Plain
  stmt s := AllWritable s.traces → s.sexpr.Plain
  branch b := AllWritable b.traces → b.sexpr.Plain
  function f := AllWritable f.traces → f.sexpr.Plain

theorem plainSExpr_hereditary : plainSExpr.Hereditary where
  number value s h := by
    simp only [Expr.traces, AllWritable.cons_iff] at h
    exact SExpr.plain_number h.1.1
  bool value s _ := SExpr.plain_bool value
  string value s _ := .quoted
  symbol name s h := by
    simp only [Expr.traces, AllWritable.cons_iff] at h
    exact SExpr.plain_name h.1
  list s hes h := by
    simp only [Expr.traces, Expr.tracesAll_eq, AllWritable.flatMap_iff] at h
    simp only [Expr.sexpr, Expr.sexprAll_eq, form_plain, List.forall_mem_map]
    exact fun e member => hes e member (h e member)
  map s hps h := by
    simp only [Expr.traces, Pair.tracesAll_eq, AllWritable.flatMap_iff] at h
    simp only [Expr.sexpr, Pair.sexprAll_eq, form_plain, List.forall_mem_map]
    exact fun p member => hps p member (h p member)
  member i s hobject h := by
    simp only [Expr.traces, AllWritable.append_iff, AllWritable.cons_iff] at h
    simp [hobject h.1, SExpr.plain_name h.2.1]
  call propagate s hcallee hes h := by
    simp only [Expr.traces, Expr.tracesAll_eq, AllWritable.append_iff, AllWritable.flatMap_iff] at h
    simp only [Expr.sexpr, Expr.sexprAll_eq, form_plain, List.forall_mem_cons, List.forall_mem_map]
    exact ⟨hcallee h.1, fun e member => hes e member (h.2.1 e member)⟩
  binary op s hleft hright h := by
    simp only [Expr.traces, AllWritable.append_iff] at h
    simp [hleft h.1, hright h.2]
  unary op s hoperand h := by
    simp [hoperand h]
  new i s hes h := by
    simp only [Expr.traces, Expr.tracesAll_eq, AllWritable.cons_iff, AllWritable.flatMap_iff] at h
    simp only [Expr.sexpr, Expr.sexprAll_eq, form_plain, List.forall_mem_cons, List.forall_mem_map]
    exact ⟨SExpr.plain_name h.1, fun e member => hes e member (h.2 e member)⟩
  choice s hscrutinee harms hfallback h := by
    simp only [Expr.traces, Arm.tracesAll_eq, Arm.traces?_eq, AllWritable.append_iff,
      AllWritable.flatMap_iff, AllWritable.elim_iff] at h
    simp only [Expr.sexpr, Arm.sexprAll_eq, Arm.sexpr?_eq, form_plain, List.forall_mem_cons,
      List.forall_mem_append, List.forall_mem_map, Option.mem_toList]
    exact ⟨hscrutinee h.1, fun a member => harms a member (h.2.1 a member),
      fun a member => hfallback a member (h.2.2 a member)⟩
  lambda is s hbody h := by
    simp only [Expr.traces, AllWritable.append_iff] at h
    simp [SExpr.plain_names h.1, hbody h.2]
  anonymous is s hbody h := by
    simp only [Expr.traces, AllWritable.append_iff] at h
    simp [SExpr.plain_names h.1, hbody h.2]
  pair s hkey hvalue h := by
    simp only [Pair.traces, AllWritable.append_iff] at h
    simp [hkey h.1, hvalue h.2]
  arm s hpattern hbody h := by
    simp only [Arm.traces, AllWritable.append_iff] at h
    simp [hpattern h.1, hbody h.2]
  exprBody hvalue h := hvalue h
  blockBody hbody h := hbody h
  block s hss h := by
    simp only [Block.traces, Stmt.tracesAll_eq, AllWritable.flatMap_iff] at h
    simp only [Block.sexpr, Stmt.sexprAll_eq, form_plain, List.forall_mem_map]
    exact fun t member => hss t member (h t member)
  returnValue s hvalue h := by
    simp [hvalue h]
  whileLoop s hcondition hbody h := by
    simp only [Stmt.traces, AllWritable.append_iff] at h
    simp [hcondition h.1, hbody h.2]
  conditional s hcondition hbody helifs hotherwise h := by
    simp only [Stmt.traces, Branch.tracesAll_eq, Block.traces?_eq, AllWritable.append_iff,
      AllWritable.flatMap_iff, AllWritable.elim_iff] at h
    simp only [Stmt.sexpr, Branch.sexprAll_eq, Block.otherwiseSExpr?_eq, form_plain, List.forall_mem_cons,
      List.forall_mem_append, List.forall_mem_map, Option.mem_toList]
    exact ⟨hcondition h.1, hbody h.2.1, fun b member => helifs b member (h.2.2.1 b member),
      fun b member => ⟨hotherwise b member (h.2.2.2 b member), List.forall_mem_nil _⟩⟩
  forLoop i s hiterable hbody h := by
    simp only [Stmt.traces, AllWritable.cons_iff, AllWritable.append_iff] at h
    simp [SExpr.plain_name h.1, hiterable h.2.1, hbody h.2.2]
  breakLoop s _ := by
    simp
  continueLoop s _ := by
    simp
  expression s hvalue h := hvalue h
  native i symbol s h := by
    simp only [Stmt.traces, AllWritable.cons_iff] at h
    simp [SExpr.plain_name h.1, SExpr.Plain.quoted]
  imports list s h := by
    simp only [Stmt.traces, AllWritable.flatMap_iff] at h
    simp only [Stmt.sexpr, form_plain, List.forall_mem_map]
    exact fun i member => Import.sexpr_plain (h i member)
  assign op s htarget hvalue h := by
    simp only [Stmt.traces, AllWritable.append_iff] at h
    simp [htarget h.1, hvalue h.2]
  define s htarget hvalue h := by
    simp only [Stmt.traces, AllWritable.append_iff] at h
    simp [htarget h.1, hvalue h.2]
  nested s hdefinition h := hdefinition h
  branch s hcondition hbody h := by
    simp only [Branch.traces, AllWritable.append_iff] at h
    simp [hcondition h.1, hbody h.2]
  function i is? s hbody h := by
    simp only [Function.traces, Block.traces?_eq, AllWritable.cons_iff, AllWritable.append_iff,
      AllWritable.elim_iff] at h
    simp only [Function.sexpr, Block.sexpr?_eq, form_plain, List.forall_mem_cons, List.forall_mem_append,
      List.forall_mem_map, Option.mem_toList]
    exact ⟨SExpr.plain_name h.1, SExpr.plain_names? h.2.1, fun b member => hbody b member (h.2.2 b member)⟩

theorem traitsSExpr?_plain {is? : Option (List Ident)} (h : AllWritable (tracesOfTraits is?)) :
    ∀ s ∈ traitsSExpr? is?, s.Plain := by
  cases is? with
  | none => exact List.forall_mem_nil _
  | some is =>
    simp only [tracesOfTraits, AllWritable.cons_iff] at h
    refine List.forall_mem_singleton.2 (form_plain.2 (List.forall_mem_map.2 ?_))
    exact fun i member => SExpr.plain_name (h.2 _ (List.mem_map_of_mem member))

theorem Definition.sexpr_plain {d : Definition} (h : AllWritable d.traces) : d.sexpr.Plain := by
  have hblock : ∀ b : Block, AllWritable b.traces → b.sexpr.Plain := plainSExpr_hereditary.ofBlock
  cases d with
  | function f => exact plainSExpr_hereditary.ofFunction f h
  | trait t =>
    simp only [Definition.traces, AllWritable.cons_iff, AllWritable.flatMap_iff] at h
    simp only [Definition.sexpr, form_plain, List.forall_mem_cons, List.forall_mem_map]
    exact ⟨SExpr.plain_name h.1, fun f member => plainSExpr_hereditary.ofFunction f (h.2 f member)⟩
  | type t =>
    simp only [Definition.traces, Block.traces?_eq, AllWritable.cons_iff, AllWritable.append_iff,
      AllWritable.elim_iff] at h
    simp only [Definition.sexpr, Block.sexpr?_eq, form_plain, List.forall_mem_cons, List.forall_mem_append,
      List.forall_mem_map, Option.mem_toList]
    exact ⟨SExpr.plain_name h.1, SExpr.plain_names? h.2.1, traitsSExpr?_plain h.2.2.1,
      fun b member => hblock b (h.2.2.2 b member)⟩
  | unit u =>
    simp only [Definition.traces, Block.traces?_eq, AllWritable.cons_iff, AllWritable.elim_iff] at h
    simp only [Definition.sexpr, Block.sexpr?_eq, form_plain, List.forall_mem_cons, List.forall_mem_map,
      Option.mem_toList]
    exact ⟨SExpr.plain_name h.1, fun b member => hblock b (h.2 b member)⟩

/-- The s-expression of an item is plain if the names and numbers of the item can be written. -/
theorem Item.sexpr_plain {i : Item} (h : AllWritable i.traces) : i.sexpr.Plain := by
  cases i with
  | definition d => exact Definition.sexpr_plain h
  | statement s => exact plainSExpr_hereditary.ofStmt s h

end WattFront
