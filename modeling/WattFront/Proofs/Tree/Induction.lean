import WattFront.Tree.Basic

/-! # Induction on trees

The types of trees contain lists of one another, so a property of all trees is a property of each type.
`TreeProperty` holds them together, and `TreeProperty.Hereditary` says that a tree has its property
whenever its parts have theirs. Then all trees have it.
-/

namespace WattFront

/-- A property for each type of tree. -/
structure TreeProperty where
  expr : Expr → Prop
  pair : Pair → Prop
  arm : Arm → Prop
  body : ArmBody → Prop
  block : Block → Prop
  stmt : Stmt → Prop
  branch : Branch → Prop
  function : Function → Prop

namespace TreeProperty

structure Hereditary (P : TreeProperty) : Prop where
  number (value : Int) (s : Span) : P.expr (.number value s)
  bool (value : Bool) (s : Span) : P.expr (.bool value s)
  string (value : String) (s : Span) : P.expr (.string value s)
  symbol (name : String) (s : Span) : P.expr (.symbol name s)
  list {es : List Expr} (s : Span) (hes : ∀ e ∈ es, P.expr e) : P.expr (.list es s)
  map {ps : List Pair} (s : Span) (hps : ∀ p ∈ ps, P.pair p) : P.expr (.map ps s)
  member {object : Expr} (i : Ident) (s : Span) (hobject : P.expr object) :
    P.expr (.member object i s)
  call {callee : Expr} {es : List Expr} (propagate : Bool) (s : Span) (hcallee : P.expr callee)
    (hes : ∀ e ∈ es, P.expr e) : P.expr (.call callee es propagate s)
  binary {left right : Expr} (op : BinaryOp) (s : Span) (hleft : P.expr left) (hright : P.expr right) :
    P.expr (.binary op left right s)
  unary {operand : Expr} (op : UnaryOp) (s : Span) (hoperand : P.expr operand) :
    P.expr (.unary op operand s)
  new {es : List Expr} (i : Ident) (s : Span) (hes : ∀ e ∈ es, P.expr e) : P.expr (.new i es s)
  choice {scrutinee : Expr} {arms : List Arm} {fallback? : Option Arm} (s : Span)
    (hscrutinee : P.expr scrutinee) (harms : ∀ a ∈ arms, P.arm a) (hfallback : ∀ a ∈ fallback?, P.arm a) :
    P.expr (.choice scrutinee arms fallback? s)
  lambda {body : Expr} (names : List Ident) (s : Span) (hbody : P.expr body) :
    P.expr (.lambda names body s)
  anonymous {body : Block} (names : List Ident) (s : Span) (hbody : P.block body) :
    P.expr (.function names body s)
  pair {key value : Expr} (s : Span) (hkey : P.expr key) (hvalue : P.expr value) :
    P.pair ⟨key, value, s⟩
  arm {pattern : Expr} {body : ArmBody} (s : Span) (hpattern : P.expr pattern) (hbody : P.body body) :
    P.arm ⟨pattern, body, s⟩
  exprBody {value : Expr} (hvalue : P.expr value) : P.body (.expr value)
  blockBody {body : Block} (hbody : P.block body) : P.body (.block body)
  block {ss : List Stmt} (s : Span) (hss : ∀ t ∈ ss, P.stmt t) : P.block ⟨ss, s⟩
  returnValue {value : Expr} (s : Span) (hvalue : P.expr value) : P.stmt (.returnValue value s)
  whileLoop {condition : Expr} {body : Block} (s : Span) (hcondition : P.expr condition)
    (hbody : P.block body) : P.stmt (.whileLoop condition body s)
  conditional {condition : Expr} {body : Block} {elifs : List Branch} {otherwise? : Option Block}
    (s : Span) (hcondition : P.expr condition) (hbody : P.block body) (helifs : ∀ b ∈ elifs, P.branch b)
    (hotherwise : ∀ b ∈ otherwise?, P.block b) :
    P.stmt (.conditional condition body elifs otherwise? s)
  forLoop {iterable : Expr} {body : Block} (i : Ident) (s : Span) (hiterable : P.expr iterable)
    (hbody : P.block body) : P.stmt (.forLoop i iterable body s)
  breakLoop (s : Span) : P.stmt (.breakLoop s)
  continueLoop (s : Span) : P.stmt (.continueLoop s)
  expression {value : Expr} (s : Span) (hvalue : P.expr value) : P.stmt (.expression value s)
  native (i : Ident) (symbol : String) (s : Span) : P.stmt (.native i symbol s)
  imports (list : List Import) (s : Span) : P.stmt (.imports list s)
  assign {target value : Expr} (op : AssignOp) (s : Span) (htarget : P.expr target)
    (hvalue : P.expr value) : P.stmt (.assign target op value s)
  define {target value : Expr} (s : Span) (htarget : P.expr target) (hvalue : P.expr value) :
    P.stmt (.define target value s)
  nested {definition : Function} (s : Span) (hdefinition : P.function definition) :
    P.stmt (.function definition s)
  branch {condition : Expr} {body : Block} (s : Span) (hcondition : P.expr condition)
    (hbody : P.block body) : P.branch ⟨condition, body, s⟩
  function {body? : Option Block} (i : Ident) (names? : Option (List Ident)) (s : Span)
    (hbody : ∀ b ∈ body?, P.block b) : P.function ⟨i, names?, body?, s⟩

namespace Hereditary

variable {P : TreeProperty}

mutual

theorem ofExpr (h : P.Hereditary) : (e : Expr) → P.expr e
  | .number value s => h.number value s
  | .bool value s => h.bool value s
  | .string value s => h.string value s
  | .symbol name s => h.symbol name s
  | .list es s => h.list s (h.ofExprs es)
  | .map ps s => h.map s (h.ofPairs ps)
  | .member object i s => h.member i s (h.ofExpr object)
  | .call callee es propagate s => h.call propagate s (h.ofExpr callee) (h.ofExprs es)
  | .binary op left right s => h.binary op s (h.ofExpr left) (h.ofExpr right)
  | .unary op operand s => h.unary op s (h.ofExpr operand)
  | .new i es s => h.new i s (h.ofExprs es)
  | .choice scrutinee arms fallback? s =>
    h.choice s (h.ofExpr scrutinee) (h.ofArms arms) (h.ofArm? fallback?)
  | .lambda names body s => h.lambda names s (h.ofExpr body)
  | .function names body s => h.anonymous names s (h.ofBlock body)

theorem ofExprs (h : P.Hereditary) : (es : List Expr) → ∀ e ∈ es, P.expr e
  | [] => fun _ member => absurd member List.not_mem_nil
  | e :: es => List.forall_mem_cons.2 ⟨h.ofExpr e, h.ofExprs es⟩

theorem ofPair (h : P.Hereditary) : (p : Pair) → P.pair p
  | ⟨key, value, s⟩ => h.pair s (h.ofExpr key) (h.ofExpr value)

theorem ofPairs (h : P.Hereditary) : (ps : List Pair) → ∀ p ∈ ps, P.pair p
  | [] => fun _ member => absurd member List.not_mem_nil
  | p :: ps => List.forall_mem_cons.2 ⟨h.ofPair p, h.ofPairs ps⟩

theorem ofArm (h : P.Hereditary) : (a : Arm) → P.arm a
  | ⟨pattern, body, s⟩ => h.arm s (h.ofExpr pattern) (h.ofBody body)

theorem ofArms (h : P.Hereditary) : (arms : List Arm) → ∀ a ∈ arms, P.arm a
  | [] => fun _ member => absurd member List.not_mem_nil
  | a :: arms => List.forall_mem_cons.2 ⟨h.ofArm a, h.ofArms arms⟩

theorem ofArm? (h : P.Hereditary) : (a? : Option Arm) → ∀ a ∈ a?, P.arm a
  | none => fun _ member => absurd member (by simp)
  | some a => fun _ member => Option.some.inj member ▸ h.ofArm a

theorem ofBody (h : P.Hereditary) : (b : ArmBody) → P.body b
  | .expr value => h.exprBody (h.ofExpr value)
  | .block body => h.blockBody (h.ofBlock body)

theorem ofBlock (h : P.Hereditary) : (b : Block) → P.block b
  | ⟨ss, s⟩ => h.block s (h.ofStmts ss)

theorem ofBlock? (h : P.Hereditary) : (b? : Option Block) → ∀ b ∈ b?, P.block b
  | none => fun _ member => absurd member (by simp)
  | some b => fun _ member => Option.some.inj member ▸ h.ofBlock b

theorem ofStmt (h : P.Hereditary) : (s : Stmt) → P.stmt s
  | .returnValue value s => h.returnValue s (h.ofExpr value)
  | .whileLoop condition body s => h.whileLoop s (h.ofExpr condition) (h.ofBlock body)
  | .conditional condition body elifs otherwise? s =>
    h.conditional s (h.ofExpr condition) (h.ofBlock body) (h.ofBranches elifs) (h.ofBlock? otherwise?)
  | .forLoop i iterable body s => h.forLoop i s (h.ofExpr iterable) (h.ofBlock body)
  | .breakLoop s => h.breakLoop s
  | .continueLoop s => h.continueLoop s
  | .expression value s => h.expression s (h.ofExpr value)
  | .native i symbol s => h.native i symbol s
  | .imports list s => h.imports list s
  | .assign target op value s => h.assign op s (h.ofExpr target) (h.ofExpr value)
  | .define target value s => h.define s (h.ofExpr target) (h.ofExpr value)
  | .function definition s => h.nested s (h.ofFunction definition)

theorem ofStmts (h : P.Hereditary) : (ss : List Stmt) → ∀ s ∈ ss, P.stmt s
  | [] => fun _ member => absurd member List.not_mem_nil
  | s :: ss => List.forall_mem_cons.2 ⟨h.ofStmt s, h.ofStmts ss⟩

theorem ofBranch (h : P.Hereditary) : (b : Branch) → P.branch b
  | ⟨condition, body, s⟩ => h.branch s (h.ofExpr condition) (h.ofBlock body)

theorem ofBranches (h : P.Hereditary) : (bs : List Branch) → ∀ b ∈ bs, P.branch b
  | [] => fun _ member => absurd member List.not_mem_nil
  | b :: bs => List.forall_mem_cons.2 ⟨h.ofBranch b, h.ofBranches bs⟩

theorem ofFunction (h : P.Hereditary) : (f : Function) → P.function f
  | ⟨i, names?, body?, s⟩ => h.function i names? s (h.ofBlock? body?)

end

end Hereditary

end TreeProperty

end WattFront
