import WattFront.Failure.Basic
import WattFront.Proofs.Tree.Bare
import WattFront.Proofs.Tree.Correspondence

/-! # Trees at other positions

A tree is *moved* by giving every position in it another one and changing nothing else. What is built in the
same way from tokens that differ only by such a move is moved like them.

* `Item.moved`, and `moved` for every other type of trees;
* `Item.Matches.eq_moved` — trees built from moved tokens are moved trees;
* `Item.Matches.eq` — and trees built from the same tokens are the same, since a move can leave all positions alone;
* `Item.bare_moved` — a move does not show in a tree without its spans;
* `Position.shift` — moving on by some bytes, as the text does that stands behind another one.
-/

namespace WattFront

/-- The position that is some bytes further on, modulo 2^32. -/
def Position.shift (count : Nat) (p : Position) : Position :=
  ⟨p.offset + UInt32.ofNat count, p.file⟩

theorem Position.shift_atByte (count offset : Nat) (file : String) :
    (atByte offset file).shift count = atByte (offset + count) file := by
  rw [shift, atByte, atByte, UInt32.ofNat_add]

/-! ## Moving a tree -/

section

variable (move : Position → Position)

def Span.moved (s : Span) : Span :=
  ⟨move s.start, move s.stop⟩

def Token.moved (t : Token) : Token :=
  { t with span := t.span.moved move }

def Failure.moved (f : Failure) : Failure :=
  { f with position := move f.position }

def Ident.moved (i : Ident) : Ident :=
  ⟨i.name, i.span.moved move⟩

def Import.moved (i : Import) : Import :=
  ⟨i.path, i.alias?.map (Ident.moved move), i.span.moved move⟩

mutual

def Expr.moved : Expr → Expr
  | .number value s => .number value (s.moved move)
  | .bool value s => .bool value (s.moved move)
  | .string value s => .string value (s.moved move)
  | .symbol name s => .symbol name (s.moved move)
  | .list elements s => .list (Expr.movedAll elements) (s.moved move)
  | .map pairs s => .map (Pair.movedAll pairs) (s.moved move)
  | .member object property s => .member object.moved (property.moved move) (s.moved move)
  | .call callee arguments propagate s =>
    .call callee.moved (Expr.movedAll arguments) propagate (s.moved move)
  | .binary operator left right s => .binary operator left.moved right.moved (s.moved move)
  | .unary operator operand s => .unary operator operand.moved (s.moved move)
  | .new type arguments s => .new (type.moved move) (Expr.movedAll arguments) (s.moved move)
  | .choice scrutinee cases fallback? s =>
    .choice scrutinee.moved (Arm.movedAll cases) (Arm.moved? fallback?) (s.moved move)
  | .lambda parameters body s => .lambda (parameters.map (Ident.moved move)) body.moved (s.moved move)
  | .function parameters body s => .function (parameters.map (Ident.moved move)) body.moved (s.moved move)

def Expr.movedAll : List Expr → List Expr
  | [] => []
  | e :: es => e.moved :: Expr.movedAll es

def Pair.moved : Pair → Pair
  | ⟨key, value, s⟩ => ⟨key.moved, value.moved, s.moved move⟩

def Pair.movedAll : List Pair → List Pair
  | [] => []
  | p :: ps => p.moved :: Pair.movedAll ps

def Arm.moved : Arm → Arm
  | ⟨pattern, body, s⟩ => ⟨pattern.moved, body.moved, s.moved move⟩

def Arm.movedAll : List Arm → List Arm
  | [] => []
  | a :: arms => a.moved :: Arm.movedAll arms

def Arm.moved? : Option Arm → Option Arm
  | none => none
  | some a => some a.moved

def ArmBody.moved : ArmBody → ArmBody
  | .expr value => .expr value.moved
  | .block body => .block body.moved

def Block.moved : Block → Block
  | ⟨statements, s⟩ => ⟨Stmt.movedAll statements, s.moved move⟩

def Block.moved? : Option Block → Option Block
  | none => none
  | some b => some b.moved

def Stmt.moved : Stmt → Stmt
  | .returnValue value s => .returnValue value.moved (s.moved move)
  | .whileLoop condition body s => .whileLoop condition.moved body.moved (s.moved move)
  | .conditional condition body elifs otherwise? s =>
    .conditional condition.moved body.moved (Branch.movedAll elifs) (Block.moved? otherwise?) (s.moved move)
  | .forLoop element iterable body s =>
    .forLoop (element.moved move) iterable.moved body.moved (s.moved move)
  | .breakLoop s => .breakLoop (s.moved move)
  | .continueLoop s => .continueLoop (s.moved move)
  | .expression value s => .expression value.moved (s.moved move)
  | .native name symbol s => .native (name.moved move) symbol (s.moved move)
  | .imports list s => .imports (list.map (Import.moved move)) (s.moved move)
  | .assign target operator value s => .assign target.moved operator value.moved (s.moved move)
  | .define target value s => .define target.moved value.moved (s.moved move)
  | .function definition s => .function definition.moved (s.moved move)

def Stmt.movedAll : List Stmt → List Stmt
  | [] => []
  | s :: ss => s.moved :: Stmt.movedAll ss

def Branch.moved : Branch → Branch
  | ⟨condition, body, s⟩ => ⟨condition.moved, body.moved, s.moved move⟩

def Branch.movedAll : List Branch → List Branch
  | [] => []
  | b :: bs => b.moved :: Branch.movedAll bs

def Function.moved : Function → Function
  | ⟨name, parameters?, body?, s⟩ =>
    ⟨name.moved move, parameters?.map (·.map (Ident.moved move)), Block.moved? body?, s.moved move⟩

end

def Definition.moved : Definition → Definition
  | .function f => .function (f.moved move)
  | .trait t => .trait ⟨t.name.moved move, t.methods.map (Function.moved move), t.span.moved move⟩
  | .type t =>
    .type ⟨t.name.moved move, t.parameters?.map (·.map (Ident.moved move)),
      t.traits?.map (·.map (Ident.moved move)), Block.moved? move t.body?, t.span.moved move⟩
  | .unit u => .unit ⟨u.name.moved move, Block.moved? move u.body?, u.span.moved move⟩

def Item.moved : Item → Item
  | .definition d => .definition (d.moved move)
  | .statement s => .statement (s.moved move)

end

attribute [simp] Expr.moved Pair.moved Arm.moved ArmBody.moved Block.moved Stmt.moved Branch.moved
  Function.moved

/-! ## Lists of trees -/

section

variable (move : Position → Position)

@[simp] theorem Expr.movedAll_eq (es : List Expr) : Expr.movedAll move es = es.map (Expr.moved move) := by
  induction es with
  | nil => rfl
  | cons e es ih => rw [Expr.movedAll, ih, List.map_cons]

@[simp] theorem Pair.movedAll_eq (ps : List Pair) : Pair.movedAll move ps = ps.map (Pair.moved move) := by
  induction ps with
  | nil => rfl
  | cons p ps ih => rw [Pair.movedAll, ih, List.map_cons]

@[simp] theorem Arm.movedAll_eq (arms : List Arm) : Arm.movedAll move arms = arms.map (Arm.moved move) := by
  induction arms with
  | nil => rfl
  | cons a arms ih => rw [Arm.movedAll, ih, List.map_cons]

@[simp] theorem Stmt.movedAll_eq (ss : List Stmt) : Stmt.movedAll move ss = ss.map (Stmt.moved move) := by
  induction ss with
  | nil => rfl
  | cons s ss ih => rw [Stmt.movedAll, ih, List.map_cons]

@[simp] theorem Branch.movedAll_eq (bs : List Branch) :
    Branch.movedAll move bs = bs.map (Branch.moved move) := by
  induction bs with
  | nil => rfl
  | cons b bs ih => rw [Branch.movedAll, ih, List.map_cons]

@[simp] theorem Arm.moved?_eq (a? : Option Arm) : Arm.moved? move a? = a?.map (Arm.moved move) := by
  cases a? <;> rfl

@[simp] theorem Block.moved?_eq (b? : Option Block) : Block.moved? move b? = b?.map (Block.moved move) := by
  cases b? <;> rfl

end

/-! ## Moving nothing -/

@[simp] theorem Span.moved_id (s : Span) : s.moved id = s := rfl

@[simp] theorem Ident.moved_id : Ident.moved id = id := rfl

@[simp] theorem Import.moved_id : Import.moved id = id := by
  funext i
  simp [Import.moved]

theorem map_eq_of_forall {α : Type} {f : α → α} {as : List α} (h : ∀ a ∈ as, f a = a) : as.map f = as :=
  (List.map_congr_left h).trans (List.map_id' as)

theorem map?_eq_of_forall {α : Type} {f : α → α} {a? : Option α} (h : ∀ a ∈ a?, f a = a) : a?.map f = a? :=
  (Option.map_congr h).trans (congrFun Option.map_id a?)

/-- A tree stays as it is when no position is given another one. -/
def staysPut : TreeProperty where
  expr e := e.moved id = e
  pair p := p.moved id = p
  arm a := a.moved id = a
  body b := b.moved id = b
  block b := b.moved id = b
  stmt s := s.moved id = s
  branch b := b.moved id = b
  function f := f.moved id = f

theorem staysPut_hereditary : staysPut.Hereditary where
  number value s := rfl
  bool value s := rfl
  string value s := rfl
  symbol name s := rfl
  list s hes := by simp [staysPut, map_eq_of_forall hes]
  map s hps := by simp [staysPut, map_eq_of_forall hps]
  member i s hobject := congrArg (Expr.member · i s) hobject
  call propagate s hcallee hes := by
    simp only [staysPut] at hcallee
    simp [staysPut, hcallee, map_eq_of_forall hes]
  binary op s hleft hright := congrArg₂ (Expr.binary op · · s) hleft hright
  unary op s hoperand := congrArg (Expr.unary op · s) hoperand
  new i s hes := by simp [staysPut, map_eq_of_forall hes]
  choice s hscrutinee harms hfallback := by
    simp only [staysPut] at hscrutinee
    simp [staysPut, hscrutinee, map_eq_of_forall harms, map?_eq_of_forall hfallback]
  lambda names s hbody := by
    simp only [staysPut] at hbody
    simp [staysPut, hbody]
  anonymous names s hbody := by
    simp only [staysPut] at hbody
    simp [staysPut, hbody]
  pair s hkey hvalue := congrArg₂ (Pair.mk · · s) hkey hvalue
  arm s hpattern hbody := congrArg₂ (Arm.mk · · s) hpattern hbody
  exprBody hvalue := congrArg ArmBody.expr hvalue
  blockBody hbody := congrArg ArmBody.block hbody
  block s hss := by simp [staysPut, map_eq_of_forall hss]
  returnValue s hvalue := congrArg (Stmt.returnValue · s) hvalue
  whileLoop s hcondition hbody := congrArg₂ (Stmt.whileLoop · · s) hcondition hbody
  conditional s hcondition hbody helifs hotherwise := by
    simp only [staysPut] at hcondition hbody
    simp [staysPut, hcondition, hbody, map_eq_of_forall helifs, map?_eq_of_forall hotherwise]
  forLoop i s hiterable hbody := congrArg₂ (Stmt.forLoop i · · s) hiterable hbody
  breakLoop s := rfl
  continueLoop s := rfl
  expression s hvalue := congrArg (Stmt.expression · s) hvalue
  native i symbol s := rfl
  imports list s := by simp [staysPut]
  assign op s htarget hvalue := congrArg₂ (Stmt.assign · op · s) htarget hvalue
  define s htarget hvalue := congrArg₂ (Stmt.define · · s) htarget hvalue
  nested s hdefinition := congrArg (Stmt.function · s) hdefinition
  branch s hcondition hbody := congrArg₂ (Branch.mk · · s) hcondition hbody
  function i names? s hbody := by simp [staysPut, map?_eq_of_forall hbody]

theorem Definition.moved_id (d : Definition) : d.moved id = d := by
  have hbody? (b? : Option Block) : b?.map (Block.moved id) = b? :=
    map?_eq_of_forall (staysPut_hereditary.ofBlock? b?)
  cases d with
  | function f => exact congrArg Definition.function (staysPut_hereditary.ofFunction f)
  | trait t =>
    simp [Definition.moved, map_eq_of_forall fun f _ => staysPut_hereditary.ofFunction f]
  | type t => simp [Definition.moved, hbody?]
  | unit u => simp [Definition.moved, hbody?]

/-- An item that is moved nowhere is the same item. -/
theorem Item.moved_id (i : Item) : i.moved id = i := by
  cases i with
  | definition d => exact congrArg Item.definition d.moved_id
  | statement s => exact congrArg Item.statement (staysPut_hereditary.ofStmt s)

/-! ## Trees built from moved tokens -/

theorem eq_map_of_forall₂ {α : Type} {R : α → α → Prop} {f : α → α} {as bs : List α}
    (h : List.Forall₂ R as bs) (heq : ∀ a ∈ as, ∀ b, R a b → b = f a) : bs = as.map f := by
  induction h with
  | nil => rfl
  | cons hab _ ih =>
    rw [List.map_cons, heq _ List.mem_cons_self _ hab, ih fun a member => heq a (List.mem_cons_of_mem _ member)]

theorem eq_map_of_rel {α : Type} {R : α → α → Prop} {f : α → α} {a? b? : Option α}
    (h : Option.Rel R a? b?) (heq : ∀ a ∈ a?, ∀ b, R a b → b = f a) : b? = a?.map f := by
  cases h with
  | none => rfl
  | some hab => rw [Option.map_some, heq _ rfl _ hab]

section

variable {T : Token → Token → Prop} {move : Position → Position} (hT : ∀ {t u}, T t u → u = t.moved move)

include hT

theorem Span.Matches.eq_moved {s s' : Span} (h : s.Matches T s') : s' = s.moved move := by
  obtain ⟨⟨t, u, htu, hstart, hstart'⟩, ⟨v, w, hvw, hstop, hstop'⟩⟩ := h
  rw [hT htu] at hstart'
  rw [hT hvw] at hstop'
  cases s
  cases s'
  simp only at hstart hstart' hstop hstop'
  rw [hstart, hstart', hstop, hstop']
  rfl

theorem Ident.Matches.eq_moved {i i' : Ident} (h : i.Matches T i') : i' = i.moved move := by
  obtain ⟨h, -⟩ := h
  rw [hT h]
  rfl

theorem eq_moved_of_names {is is' : List Ident} (h : List.Forall₂ (Ident.Matches T) is is') :
    is' = is.map (Ident.moved move) :=
  eq_map_of_forall₂ h fun _ _ _ hi => hi.eq_moved hT

theorem eq_moved_of_names? {is? is?' : Option (List Ident)}
    (h : Option.Rel (List.Forall₂ (Ident.Matches T)) is? is?') :
    is?' = is?.map (·.map (Ident.moved move)) :=
  eq_map_of_rel h fun _ _ _ his => eq_moved_of_names hT his

theorem Import.Matches.eq_moved {i i' : Import} (h : i.Matches T i') : i' = i.moved move := by
  obtain ⟨h, -, halias, hs⟩ := h
  rw [hT h, eq_map_of_rel halias fun _ _ _ hi => hi.eq_moved hT, hs.eq_moved hT]
  rfl

omit hT in
/-- Trees that correspond differ by the move only. -/
def onlyMoves (T : Token → Token → Prop) (move : Position → Position) : TreeProperty where
  expr e := ∀ e', e.Matches T e' → e' = e.moved move
  pair p := ∀ p', p.Matches T p' → p' = p.moved move
  arm a := ∀ a', a.Matches T a' → a' = a.moved move
  body b := ∀ b', b.Matches T b' → b' = b.moved move
  block b := ∀ b', b.Matches T b' → b' = b.moved move
  stmt s := ∀ s', s.Matches T s' → s' = s.moved move
  branch b := ∀ b', b.Matches T b' → b' = b.moved move
  function f := ∀ f', f.Matches T f' → f' = f.moved move

theorem onlyMoves_hereditary : (onlyMoves T move).Hereditary where
  number value s e' h := by
    cases h with
    | @number t u _ w h _ hleft hright =>
      rw [hT h] at hright ⊢
      have hvalue : some value = some w := hleft.symm.trans hright
      cases hvalue
      rfl
  bool value s e' h := by
    cases h with
    | bool _ h => rw [hT h]; rfl
  string value s e' h := by
    cases h with
    | string h => rw [hT h]; rfl
  symbol name s e' h := by
    cases h with
    | symbol h => rw [hT h]; rfl
  list s hes e' h := by
    cases h with
    | list hmatch hs => rw [Expr.moved, Expr.movedAll_eq, eq_map_of_forall₂ hmatch hes, hs.eq_moved hT]
  map s hps e' h := by
    cases h with
    | map hmatch hs => rw [Expr.moved, Pair.movedAll_eq, eq_map_of_forall₂ hmatch hps, hs.eq_moved hT]
  member i s hobject e' h := by
    cases h with
    | member hmatch hi hs => rw [Expr.moved, hobject _ hmatch, hi.eq_moved hT, hs.eq_moved hT]
  call propagate s hcallee hes e' h := by
    cases h with
    | call _ hmatch hmatches hs =>
      rw [Expr.moved, Expr.movedAll_eq, hcallee _ hmatch, eq_map_of_forall₂ hmatches hes, hs.eq_moved hT]
  binary op s hleft hright e' h := by
    cases h with
    | binary _ hmatch hmatch' hs =>
      rw [Expr.moved, hleft _ hmatch, hright _ hmatch', hs.eq_moved hT]
  unary op s hoperand e' h := by
    cases h with
    | unary _ hmatch hs => rw [Expr.moved, hoperand _ hmatch, hs.eq_moved hT]
  new i s hes e' h := by
    cases h with
    | new hi hmatches hs =>
      rw [Expr.moved, Expr.movedAll_eq, hi.eq_moved hT, eq_map_of_forall₂ hmatches hes, hs.eq_moved hT]
  choice s hscrutinee harms hfallback e' h := by
    cases h with
    | choice hmatch hmatches hlast hs =>
      rw [Expr.moved, Arm.movedAll_eq, Arm.moved?_eq, hscrutinee _ hmatch, eq_map_of_forall₂ hmatches harms,
        eq_map_of_rel hlast hfallback, hs.eq_moved hT]
  lambda names s hbody e' h := by
    cases h with
    | lambda hnames hmatch hs =>
      rw [Expr.moved, eq_moved_of_names hT hnames, hbody _ hmatch, hs.eq_moved hT]
  anonymous names s hbody e' h := by
    cases h with
    | function hnames hmatch hs =>
      rw [Expr.moved, eq_moved_of_names hT hnames, hbody _ hmatch, hs.eq_moved hT]
  pair s hkey hvalue p' h := by
    obtain ⟨hmatch, hmatch', hs⟩ := h
    rw [Pair.moved, hkey _ hmatch, hvalue _ hmatch', hs.eq_moved hT]
  arm s hpattern hbody a' h := by
    obtain ⟨hmatch, hmatch', hs⟩ := h
    rw [Arm.moved, hpattern _ hmatch, hbody _ hmatch', hs.eq_moved hT]
  exprBody hvalue b' h := by
    cases h with
    | expr hmatch => rw [ArmBody.moved, hvalue _ hmatch]
  blockBody hbody b' h := by
    cases h with
    | block hmatch => rw [ArmBody.moved, hbody _ hmatch]
  block s hss b' h := by
    obtain ⟨hmatches, hs⟩ := h
    rw [Block.moved, Stmt.movedAll_eq, eq_map_of_forall₂ hmatches hss, hs.eq_moved hT]
  returnValue s hvalue s' h := by
    cases h with
    | returnValue hmatch hs => rw [Stmt.moved, hvalue _ hmatch, hs.eq_moved hT]
  whileLoop s hcondition hbody s' h := by
    cases h with
    | whileLoop hmatch hmatch' hs => rw [Stmt.moved, hcondition _ hmatch, hbody _ hmatch', hs.eq_moved hT]
  conditional s hcondition hbody helifs hotherwise s' h := by
    cases h with
    | conditional hmatch hmatch' hmatches hlast hs =>
      rw [Stmt.moved, Branch.movedAll_eq, Block.moved?_eq, hcondition _ hmatch, hbody _ hmatch',
        eq_map_of_forall₂ hmatches helifs, eq_map_of_rel hlast hotherwise, hs.eq_moved hT]
  forLoop i s hiterable hbody s' h := by
    cases h with
    | forLoop hi hmatch hmatch' hs =>
      rw [Stmt.moved, hi.eq_moved hT, hiterable _ hmatch, hbody _ hmatch', hs.eq_moved hT]
  breakLoop s s' h := by
    cases h with
    | breakLoop hs => rw [Stmt.moved, hs.eq_moved hT]
  continueLoop s s' h := by
    cases h with
    | continueLoop hs => rw [Stmt.moved, hs.eq_moved hT]
  expression s hvalue s' h := by
    cases h with
    | expression hmatch hs => rw [Stmt.moved, hvalue _ hmatch, hs.eq_moved hT]
  native i symbol s s' h := by
    cases h with
    | native hi h _ hs =>
      rw [Stmt.moved, hi.eq_moved hT, hT h, hs.eq_moved hT]
      rfl
  imports list s s' h := by
    cases h with
    | imports hmatches hs =>
      rw [Stmt.moved, eq_map_of_forall₂ hmatches fun _ _ _ hi => hi.eq_moved hT, hs.eq_moved hT]
  assign op s htarget hvalue s' h := by
    cases h with
    | assign _ hmatch hmatch' hs => rw [Stmt.moved, htarget _ hmatch, hvalue _ hmatch', hs.eq_moved hT]
  define s htarget hvalue s' h := by
    cases h with
    | define hmatch hmatch' hs => rw [Stmt.moved, htarget _ hmatch, hvalue _ hmatch', hs.eq_moved hT]
  nested s hdefinition s' h := by
    cases h with
    | function hmatch hs => rw [Stmt.moved, hdefinition _ hmatch, hs.eq_moved hT]
  branch s hcondition hbody b' h := by
    obtain ⟨hmatch, hmatch', hs⟩ := h
    rw [Branch.moved, hcondition _ hmatch, hbody _ hmatch', hs.eq_moved hT]
  function i names? s hbody f' h := by
    obtain ⟨hi, hnames, hlast, hs⟩ := h
    rw [Function.moved, Block.moved?_eq, hi.eq_moved hT, eq_moved_of_names? hT hnames,
      eq_map_of_rel hlast hbody, hs.eq_moved hT]

theorem Definition.Matches.eq_moved {d d' : Definition} (h : d.Matches T d') : d' = d.moved move := by
  have hbody? {b? b?' : Option Block} (h : Option.Rel (Block.Matches T) b? b?') :
      b?' = Block.moved? move b? := by
    rw [Block.moved?_eq]
    exact eq_map_of_rel h fun b _ b' hb => (onlyMoves_hereditary hT).ofBlock b b' hb
  cases h with
  | @function f f' h => rw [Definition.moved, (onlyMoves_hereditary hT).ofFunction f f' h]
  | trait hi hmethods hs =>
    rw [Definition.moved, hi.eq_moved hT, hs.eq_moved hT,
      eq_map_of_forall₂ hmethods fun f _ f' hf => (onlyMoves_hereditary hT).ofFunction f f' hf]
  | type hi hnames htraits hbody hs =>
    rw [Definition.moved, hi.eq_moved hT, eq_moved_of_names? hT hnames, eq_moved_of_names? hT htraits,
      hbody? hbody, hs.eq_moved hT]
  | unit hi hbody hs => rw [Definition.moved, hi.eq_moved hT, hbody? hbody, hs.eq_moved hT]

/-- Items that are built in the same way from moved tokens are moved. -/
theorem Item.Matches.eq_moved {i i' : Item} (h : i.Matches T i') : i' = i.moved move := by
  cases h with
  | definition h => rw [Item.moved, h.eq_moved hT]
  | @statement s s' h => rw [Item.moved, (onlyMoves_hereditary hT).ofStmt s s' h]

end

/-! ## Trees built from the same tokens -/

section

variable {T : Token → Token → Prop} (hT : ∀ {t u}, T t u → t = u)

include hT

/-- Equal tokens are moved by nothing. -/
theorem eq_moved_id {t u : Token} (h : T t u) : u = t.moved id :=
  (hT h).symm

theorem onlyMoves_id : (onlyMoves T id).Hereditary :=
  onlyMoves_hereditary (eq_moved_id hT)

theorem Ident.Matches.eq {i i' : Ident} (h : i.Matches T i') : i = i' :=
  (h.eq_moved (eq_moved_id hT)).symm

theorem Import.Matches.eq {i i' : Import} (h : i.Matches T i') : i = i' := by
  rw [h.eq_moved (eq_moved_id hT), Import.moved_id, id]

theorem Expr.Matches.eq {e e' : Expr} (h : e.Matches T e') : e = e' :=
  (staysPut_hereditary.ofExpr e).symm.trans ((onlyMoves_id hT).ofExpr e e' h).symm

theorem Pair.Matches.eq {p p' : Pair} (h : p.Matches T p') : p = p' :=
  (staysPut_hereditary.ofPair p).symm.trans ((onlyMoves_id hT).ofPair p p' h).symm

theorem Arm.Matches.eq {a a' : Arm} (h : a.Matches T a') : a = a' :=
  (staysPut_hereditary.ofArm a).symm.trans ((onlyMoves_id hT).ofArm a a' h).symm

theorem Block.Matches.eq {b b' : Block} (h : b.Matches T b') : b = b' :=
  (staysPut_hereditary.ofBlock b).symm.trans ((onlyMoves_id hT).ofBlock b b' h).symm

theorem Stmt.Matches.eq {s s' : Stmt} (h : s.Matches T s') : s = s' :=
  (staysPut_hereditary.ofStmt s).symm.trans ((onlyMoves_id hT).ofStmt s s' h).symm

theorem Function.Matches.eq {f f' : Function} (h : f.Matches T f') : f = f' :=
  (staysPut_hereditary.ofFunction f).symm.trans ((onlyMoves_id hT).ofFunction f f' h).symm

/-- Items that are built in the same way from the same tokens are the same. -/
theorem Item.Matches.eq {i i' : Item} (h : i.Matches T i') : i = i' := by
  rw [h.eq_moved (eq_moved_id hT), i.moved_id]

omit hT in
/-- Lists of equal members are equal. -/
theorem eq_of_forall₂ {α : Type} {R : α → α → Prop} {as bs : List α} (h : List.Forall₂ R as bs)
    (heq : ∀ a ∈ as, ∀ b, R a b → a = b) : as = bs := by
  rw [eq_map_of_forall₂ (f := id) h fun a member b hab => (heq a member b hab).symm, List.map_id]

theorem eq_of_names {is is' : List Ident} (h : List.Forall₂ (Ident.Matches T) is is') : is = is' :=
  eq_of_forall₂ h fun _ _ _ hi => hi.eq hT

end

/-! ## Moved trees without their spans -/

section

variable (move : Position → Position)

@[simp] theorem Ident.bare_moved (i : Ident) : (i.moved move).bare = i.bare := rfl

@[simp] theorem Ident.map_bare_moved? (is? : Option (List Ident)) :
    (is?.map (·.map (Ident.moved move))).map (·.map Ident.bare) = is?.map (·.map Ident.bare) := by
  cases is? <;> simp [Function.comp_def]

@[simp] theorem Import.bare_moved (i : Import) : (i.moved move).bare = i.bare := by
  simp [Import.moved, Import.bare, Function.comp_def]

theorem map_moved_congr {α : Type} {moved bare : α → α} {a? : Option α} (h : ∀ a ∈ a?, bare (moved a) = bare a) :
    (a?.map moved).map bare = a?.map bare := by
  rw [Option.map_map]
  exact Option.map_congr h

/-- A move does not show without the spans. -/
def movesUnseen : TreeProperty where
  expr e := (e.moved move).bare = e.bare
  pair p := (p.moved move).bare = p.bare
  arm a := (a.moved move).bare = a.bare
  body b := (b.moved move).bare = b.bare
  block b := (b.moved move).bare = b.bare
  stmt s := (s.moved move).bare = s.bare
  branch b := (b.moved move).bare = b.bare
  function f := (f.moved move).bare = f.bare

theorem movesUnseen_hereditary : (movesUnseen move).Hereditary where
  number value s := rfl
  bool value s := rfl
  string value s := rfl
  symbol name s := rfl
  list s hes := by
    simp only [movesUnseen] at hes
    simpa [movesUnseen] using hes
  map s hps := by
    simp only [movesUnseen] at hps
    simpa [movesUnseen] using hps
  member i s hobject := by
    simp only [movesUnseen] at hobject
    simp [movesUnseen, hobject]
  call propagate s hcallee hes := by
    simp only [movesUnseen] at hcallee hes
    simpa [movesUnseen, hcallee] using hes
  binary op s hleft hright := by
    simp only [movesUnseen] at hleft hright
    simp [movesUnseen, hleft, hright]
  unary op s hoperand := by
    simp only [movesUnseen] at hoperand
    simp [movesUnseen, hoperand]
  new i s hes := by
    simp only [movesUnseen] at hes
    simpa [movesUnseen] using hes
  choice s hscrutinee harms hfallback := by
    simp only [movesUnseen] at hscrutinee harms
    have hlast := map_moved_congr hfallback
    simp only [movesUnseen, Expr.moved, Expr.bare, hscrutinee, Arm.movedAll_eq, Arm.bareAll_eq, Arm.moved?_eq,
      Arm.bare?_eq, hlast]
    simpa using harms
  lambda names s hbody := by
    simp only [movesUnseen] at hbody
    simp [movesUnseen, hbody]
  anonymous names s hbody := by
    simp only [movesUnseen] at hbody
    simp [movesUnseen, hbody]
  pair s hkey hvalue := by
    simp only [movesUnseen] at hkey hvalue
    simp [movesUnseen, hkey, hvalue]
  arm s hpattern hbody := by
    simp only [movesUnseen] at hpattern hbody
    simp [movesUnseen, hpattern, hbody]
  exprBody hvalue := by
    simp only [movesUnseen] at hvalue
    simp [movesUnseen, hvalue]
  blockBody hbody := by
    simp only [movesUnseen] at hbody
    simp [movesUnseen, hbody]
  block s hss := by
    simp only [movesUnseen] at hss
    simpa [movesUnseen] using hss
  returnValue s hvalue := by
    simp only [movesUnseen] at hvalue
    simp [movesUnseen, hvalue]
  whileLoop s hcondition hbody := by
    simp only [movesUnseen] at hcondition hbody
    simp [movesUnseen, hcondition, hbody]
  conditional s hcondition hbody helifs hotherwise := by
    simp only [movesUnseen] at hcondition hbody helifs
    have hlast := map_moved_congr hotherwise
    simp only [movesUnseen, Stmt.moved, Stmt.bare, hcondition, hbody, Branch.movedAll_eq, Branch.bareAll_eq,
      Block.moved?_eq, Block.bare?_eq, hlast]
    simpa using helifs
  forLoop i s hiterable hbody := by
    simp only [movesUnseen] at hiterable hbody
    simp [movesUnseen, hiterable, hbody]
  breakLoop s := rfl
  continueLoop s := rfl
  expression s hvalue := by
    simp only [movesUnseen] at hvalue
    simp [movesUnseen, hvalue]
  native i symbol s := rfl
  imports list s := by
    simp [movesUnseen]
  assign op s htarget hvalue := by
    simp only [movesUnseen] at htarget hvalue
    simp [movesUnseen, htarget, hvalue]
  define s htarget hvalue := by
    simp only [movesUnseen] at htarget hvalue
    simp [movesUnseen, htarget, hvalue]
  nested s hdefinition := by
    simp only [movesUnseen] at hdefinition
    simp [movesUnseen, hdefinition]
  branch s hcondition hbody := by
    simp only [movesUnseen] at hcondition hbody
    simp [movesUnseen, hcondition, hbody]
  function i names? s hbody := by
    have hlast := map_moved_congr hbody
    simp only [movesUnseen, Function.moved, Function.bare, Block.moved?_eq, Block.bare?_eq, hlast,
      Ident.map_bare_moved?, Ident.bare_moved]

theorem Definition.bare_moved (d : Definition) : (d.moved move).bare = d.bare := by
  have hbody (b? : Option Block) : Block.bare? (Block.moved? move b?) = Block.bare? b? := by
    rw [Block.moved?_eq, Block.bare?_eq, Block.bare?_eq]
    exact map_moved_congr ((movesUnseen_hereditary move).ofBlock? b?)
  cases d with
  | function f => exact congrArg Definition.function ((movesUnseen_hereditary move).ofFunction f)
  | trait t =>
    have hmethods : (t.methods.map (Function.moved move)).map Function.bare = t.methods.map Function.bare := by
      rw [List.map_map]
      exact List.map_congr_left fun f _ => (movesUnseen_hereditary move).ofFunction f
    rw [Definition.moved, Definition.bare, Definition.bare, hmethods, Ident.bare_moved]
  | type t =>
    rw [Definition.moved, Definition.bare, Definition.bare, hbody, Ident.map_bare_moved?, Ident.map_bare_moved?,
      Ident.bare_moved]
  | unit u => rw [Definition.moved, Definition.bare, Definition.bare, hbody, Ident.bare_moved]

/-- A move does not show in an item without its spans. -/
theorem Item.bare_moved (i : Item) : (i.moved move).bare = i.bare := by
  cases i with
  | definition d => exact congrArg Item.definition (d.bare_moved move)
  | statement s => exact congrArg Item.statement ((movesUnseen_hereditary move).ofStmt s)

end

end WattFront
