import Mathlib.Data.List.Forall2
import Mathlib.Data.Option.Basic
import WattFront.Proofs.Tree.Induction
import WattFront.Token.Basic
import WattFront.Token.Numeral

/-! # Trees that correspond

Two trees correspond, with respect to a relation on tokens, if they are built in the same way from tokens
that are related: every name, number and string is that of a token, and every span starts where a token
starts and stops where a token stops, each time with the related token in its place on the other side.

`Item.Matches.eq` says that trees which correspond with respect to equality are the same.
-/

namespace WattFront

variable {T : Token → Token → Prop}

/-- Two spans start where related tokens start, and stop where related tokens stop. -/
structure Span.Matches (T : Token → Token → Prop) (s s' : Span) : Prop where
  start : ∃ t u, T t u ∧ s.start = t.span.start ∧ s'.start = u.span.start
  stop : ∃ t u, T t u ∧ s.stop = t.span.stop ∧ s'.stop = u.span.stop

inductive Ident.Matches (T : Token → Token → Prop) : Ident → Ident → Prop
  | intro {t u} (h : T t u) (hkind : t.kind = .identifier) :
    Ident.Matches T ⟨t.value, t.span⟩ ⟨u.value, u.span⟩

inductive Import.Matches (T : Token → Token → Prop) : Import → Import → Prop
  | intro {t u alias? alias?' s s'} (h : T t u) (hkind : t.kind = .string)
    (halias : Option.Rel (Ident.Matches T) alias? alias?') (hs : s.Matches T s') :
    Import.Matches T ⟨t.value, alias?, s⟩ ⟨u.value, alias?', s'⟩

mutual

/-- Two expressions are built in the same way from related tokens. -/
inductive Expr.Matches (T : Token → Token → Prop) : Expr → Expr → Prop
  | number {t u v w} (h : T t u) (hkind : t.kind = .number)
    (hleft : Numeral.value? t.value.toList = some v) (hright : Numeral.value? u.value.toList = some w) :
    Expr.Matches T (.number v t.span) (.number w u.span)
  | bool {t u} (value : Bool) (h : T t u) (hkind : t.kind = if value then .kwTrue else .kwFalse) :
    Expr.Matches T (.bool value t.span) (.bool value u.span)
  | string {t u} (h : T t u) (hkind : t.kind = .string) :
    Expr.Matches T (.string t.value t.span) (.string u.value u.span)
  | symbol {t u} (h : T t u) (hkind : t.kind = .identifier) :
    Expr.Matches T (.symbol t.value t.span) (.symbol u.value u.span)
  | list {es es' s s'} (hes : List.Forall₂ (Expr.Matches T) es es') (hs : s.Matches T s') :
    Expr.Matches T (.list es s) (.list es' s')
  | map {ps ps' s s'} (hps : List.Forall₂ (Pair.Matches T) ps ps') (hs : s.Matches T s') :
    Expr.Matches T (.map ps s) (.map ps' s')
  | member {object object' i i' s s'} (hobject : Expr.Matches T object object')
    (hproperty : i.Matches T i') (hs : s.Matches T s') :
    Expr.Matches T (.member object i s) (.member object' i' s')
  | call {callee callee' es es' s s'} (propagate : Bool) (hcallee : Expr.Matches T callee callee')
    (hes : List.Forall₂ (Expr.Matches T) es es') (hs : s.Matches T s') :
    Expr.Matches T (.call callee es propagate s) (.call callee' es' propagate s')
  | binary {left left' right right' s s'} (op : BinaryOp) (hleft : Expr.Matches T left left')
    (hright : Expr.Matches T right right') (hs : s.Matches T s') :
    Expr.Matches T (.binary op left right s) (.binary op left' right' s')
  | unary {operand operand' s s'} (op : UnaryOp) (hoperand : Expr.Matches T operand operand')
    (hs : s.Matches T s') : Expr.Matches T (.unary op operand s) (.unary op operand' s')
  | new {i i' es es' s s'} (htype : i.Matches T i') (hes : List.Forall₂ (Expr.Matches T) es es')
    (hs : s.Matches T s') : Expr.Matches T (.new i es s) (.new i' es' s')
  | choice {scrutinee scrutinee' arms arms' fallback? fallback?' s s'}
    (hscrutinee : Expr.Matches T scrutinee scrutinee') (harms : List.Forall₂ (Arm.Matches T) arms arms')
    (hfallback : Option.Rel (Arm.Matches T) fallback? fallback?') (hs : s.Matches T s') :
    Expr.Matches T (.choice scrutinee arms fallback? s) (.choice scrutinee' arms' fallback?' s')
  | lambda {names names' body body' s s'} (hnames : List.Forall₂ (Ident.Matches T) names names')
    (hbody : Expr.Matches T body body') (hs : s.Matches T s') :
    Expr.Matches T (.lambda names body s) (.lambda names' body' s')
  | function {names names' body body' s s'} (hnames : List.Forall₂ (Ident.Matches T) names names')
    (hbody : Block.Matches T body body') (hs : s.Matches T s') :
    Expr.Matches T (.function names body s) (.function names' body' s')

inductive Pair.Matches (T : Token → Token → Prop) : Pair → Pair → Prop
  | intro {key key' value value' s s'} (hkey : Expr.Matches T key key')
    (hvalue : Expr.Matches T value value') (hs : s.Matches T s') :
    Pair.Matches T ⟨key, value, s⟩ ⟨key', value', s'⟩

inductive Arm.Matches (T : Token → Token → Prop) : Arm → Arm → Prop
  | intro {pattern pattern' body body' s s'} (hpattern : Expr.Matches T pattern pattern')
    (hbody : ArmBody.Matches T body body') (hs : s.Matches T s') :
    Arm.Matches T ⟨pattern, body, s⟩ ⟨pattern', body', s'⟩

inductive ArmBody.Matches (T : Token → Token → Prop) : ArmBody → ArmBody → Prop
  | expr {value value'} (hvalue : Expr.Matches T value value') :
    ArmBody.Matches T (.expr value) (.expr value')
  | block {body body'} (hbody : Block.Matches T body body') :
    ArmBody.Matches T (.block body) (.block body')

inductive Block.Matches (T : Token → Token → Prop) : Block → Block → Prop
  | intro {ss ss' s s'} (hss : List.Forall₂ (Stmt.Matches T) ss ss') (hs : s.Matches T s') :
    Block.Matches T ⟨ss, s⟩ ⟨ss', s'⟩

inductive Stmt.Matches (T : Token → Token → Prop) : Stmt → Stmt → Prop
  | returnValue {value value' s s'} (hvalue : Expr.Matches T value value') (hs : s.Matches T s') :
    Stmt.Matches T (.returnValue value s) (.returnValue value' s')
  | whileLoop {condition condition' body body' s s'} (hcondition : Expr.Matches T condition condition')
    (hbody : Block.Matches T body body') (hs : s.Matches T s') :
    Stmt.Matches T (.whileLoop condition body s) (.whileLoop condition' body' s')
  | conditional {condition condition' body body' elifs elifs' otherwise? otherwise?' s s'}
    (hcondition : Expr.Matches T condition condition') (hbody : Block.Matches T body body')
    (helifs : List.Forall₂ (Branch.Matches T) elifs elifs')
    (hotherwise : Option.Rel (Block.Matches T) otherwise? otherwise?') (hs : s.Matches T s') :
    Stmt.Matches T (.conditional condition body elifs otherwise? s)
      (.conditional condition' body' elifs' otherwise?' s')
  | forLoop {i i' iterable iterable' body body' s s'} (helement : i.Matches T i')
    (hiterable : Expr.Matches T iterable iterable') (hbody : Block.Matches T body body')
    (hs : s.Matches T s') : Stmt.Matches T (.forLoop i iterable body s) (.forLoop i' iterable' body' s')
  | breakLoop {s s'} (hs : s.Matches T s') : Stmt.Matches T (.breakLoop s) (.breakLoop s')
  | continueLoop {s s'} (hs : s.Matches T s') : Stmt.Matches T (.continueLoop s) (.continueLoop s')
  | expression {value value' s s'} (hvalue : Expr.Matches T value value') (hs : s.Matches T s') :
    Stmt.Matches T (.expression value s) (.expression value' s')
  | native {i i' t u s s'} (hname : i.Matches T i') (h : T t u) (hkind : t.kind = .string)
    (hs : s.Matches T s') : Stmt.Matches T (.native i t.value s) (.native i' u.value s')
  | imports {list list' s s'} (hlist : List.Forall₂ (Import.Matches T) list list') (hs : s.Matches T s') :
    Stmt.Matches T (.imports list s) (.imports list' s')
  | assign {target target' value value' s s'} (op : AssignOp) (htarget : Expr.Matches T target target')
    (hvalue : Expr.Matches T value value') (hs : s.Matches T s') :
    Stmt.Matches T (.assign target op value s) (.assign target' op value' s')
  | define {target target' value value' s s'} (htarget : Expr.Matches T target target')
    (hvalue : Expr.Matches T value value') (hs : s.Matches T s') :
    Stmt.Matches T (.define target value s) (.define target' value' s')
  | function {definition definition' s s'} (hdefinition : Function.Matches T definition definition')
    (hs : s.Matches T s') : Stmt.Matches T (.function definition s) (.function definition' s')

inductive Branch.Matches (T : Token → Token → Prop) : Branch → Branch → Prop
  | intro {condition condition' body body' s s'} (hcondition : Expr.Matches T condition condition')
    (hbody : Block.Matches T body body') (hs : s.Matches T s') :
    Branch.Matches T ⟨condition, body, s⟩ ⟨condition', body', s'⟩

inductive Function.Matches (T : Token → Token → Prop) : Function → Function → Prop
  | intro {i i' names? names?' body? body?' s s'} (hname : i.Matches T i')
    (hparameters : Option.Rel (List.Forall₂ (Ident.Matches T)) names? names?')
    (hbody : Option.Rel (Block.Matches T) body? body?') (hs : s.Matches T s') :
    Function.Matches T ⟨i, names?, body?, s⟩ ⟨i', names?', body?', s'⟩

end

inductive Definition.Matches (T : Token → Token → Prop) : Definition → Definition → Prop
  | function {f f'} (h : f.Matches T f') : Definition.Matches T (.function f) (.function f')
  | trait {i i' fs fs' s s'} (hname : i.Matches T i') (hmethods : List.Forall₂ (Function.Matches T) fs fs')
    (hs : s.Matches T s') : Definition.Matches T (.trait ⟨i, fs, s⟩) (.trait ⟨i', fs', s'⟩)
  | type {i i' names? names?' traits? traits?' body? body?' s s'} (hname : i.Matches T i')
    (hparameters : Option.Rel (List.Forall₂ (Ident.Matches T)) names? names?')
    (htraits : Option.Rel (List.Forall₂ (Ident.Matches T)) traits? traits?')
    (hbody : Option.Rel (Block.Matches T) body? body?') (hs : s.Matches T s') :
    Definition.Matches T (.type ⟨i, names?, traits?, body?, s⟩) (.type ⟨i', names?', traits?', body?', s'⟩)
  | unit {i i' body? body?' s s'} (hname : i.Matches T i')
    (hbody : Option.Rel (Block.Matches T) body? body?') (hs : s.Matches T s') :
    Definition.Matches T (.unit ⟨i, body?, s⟩) (.unit ⟨i', body?', s'⟩)

inductive Item.Matches (T : Token → Token → Prop) : Item → Item → Prop
  | definition {d d'} (h : d.Matches T d') : Item.Matches T (.definition d) (.definition d')
  | statement {s s'} (h : s.Matches T s') : Item.Matches T (.statement s) (.statement s')

/-! ## Spans -/

namespace Span.Matches

variable {a a' b b' : Span}

/-- The spans of related tokens. -/
theorem token {t u : Token} (h : T t u) : t.span.Matches T u.span :=
  ⟨⟨t, u, h, rfl, rfl⟩, ⟨t, u, h, rfl, rfl⟩⟩

/-- From the start of one pair of spans to the stop of another. -/
theorem through (h : a.Matches T a') (h' : b.Matches T b') : (a.through b).Matches T (a'.through b') :=
  ⟨h.start, h'.stop⟩

end Span.Matches

/-- Expressions that correspond stand at corresponding spans. -/
theorem Expr.Matches.span {e e' : Expr} (h : e.Matches T e') : e.span.Matches T e'.span := by
  cases h with
  | number h | bool _ h | string h | symbol h => exact .token h
  | list _ hs | map _ hs | member _ _ hs | call _ _ _ hs | binary _ _ _ hs | unary _ _ hs | new _ _ hs
  | choice _ _ _ hs | lambda _ _ hs | function _ _ hs => exact hs

theorem Function.Matches.span {f f' : Function} (h : f.Matches T f') : f.span.Matches T f'.span := by
  cases h with
  | intro _ _ _ hs => exact hs

end WattFront
