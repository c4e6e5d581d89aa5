import WattFront.Proofs.Grammar.Parallel
import WattFront.Proofs.Grammar.Passing

/-! # Expressions read side by side

Two runs of a construct of expressions on tapes that are alike stay in step, and what they come to is built
in the same way from the tokens at the same indices. A construct consumes a token before it asks where the
latest one stops, so every span is that of tokens on the tapes.
-/

namespace WattFront.TapePair

open Grammar

variable {w : TapePair}

structure Reads (w : TapePair) (inner : Inner) : Prop where
  expr (power : BindingPower) :
    w.Follows 0 1 (inner.expr power) (inner.expr power) (Expr.Matches w.Related)
  block : w.Follows 0 1 inner.block inner.block (Block.Matches w.Related)

/-! ## Names and comma lists -/

section

variable {α : Type} {x y : Reading α} {R : α → α → Prop}

theorem follows_identifier : w.Follows 0 1 identifier identifier (Ident.Matches w.Related) :=
  (Follows.expect .identifier (by decide)).bind fun _ _ ⟨h, hkind⟩ => .pure (.intro h hkind)

theorem follows_separated [x.Forward] (hx : w.Follows 0 1 x y R) :
    w.Follows 0 1 (separated x) (separated y) (List.Forall₂ R) := by
  have hfurther : w.Follows 0 1 (do let _ ← Reading.advance; x) (do let _ ← Reading.advance; y) R :=
    Follows.advance.bind fun _ _ _ => hx
  refine hx.bind fun a b hab => ?_
  exact (Follows.many rfl hfurther).bind fun as bs habs => .pure (.cons hab habs)

theorem follows_commaList [x.Forward] {close : TokenKind} {gain : Nat} {S : Token → Token → Prop}
    (hclose : ∀ least, w.Follows least gain (Reading.expect close) (Reading.expect close) S)
    (hx : w.Follows 0 1 x y R) :
    w.Follows 0 gain (commaList close x) (commaList close y) (List.Forall₂ R) := by
  have hend (as bs : List α) (habs : List.Forall₂ R as bs) :
      w.Follows 0 (0 + gain) (do let _ ← Reading.expect close; pure as)
        (do let _ ← Reading.expect close; pure bs) (List.Forall₂ R) :=
    (hclose 0).bind fun _ _ _ => .pure habs
  rw [Nat.zero_add] at hend
  refine Follows.kind_bind fun kind => Follows.ite ?_ ?_
  · exact hend [] [] .nil
  · exact (follows_separated hx).goes.bind hend

theorem follows_parameters :
    w.Follows 0 1 parameters parameters (List.Forall₂ (Ident.Matches w.Related)) := by
  refine (Follows.expect .openParen (by decide)).bind fun _ _ _ => ?_
  exact (follows_commaList (fun _ => .expect _ (by decide)) follows_identifier).goes

end

/-! ## Operands -/

/-- The current tokens are consumed, and the values were made of them. -/
theorem meets_next {c d : Cursor} {e e' : Expr} (hstep : w.InStep c d) (hkind : c.kind ≠ .endOfInput)
    (he : e.Matches w.Related e') :
    w.Meets (c.index + 1) (Expr.Matches w.Related) (.done e c.next) (.done e' d.next) := by
  rcases hstep.next_of_ne hkind with ⟨hnext, hindex⟩ | hbeyond
  · exact .done he hnext (Nat.le_of_eq hindex.symm)
  · exact .beyond hbeyond

def numeral (c : Cursor) : Outcome Expr :=
  match Numeral.value? c.current.value.toList with
  | some value => .done (.number value c.current.span) c.next
  | none => badNumeral c.current c

/-- A literal, with the reading of a number under a name of its own. -/
theorem literal_apply (c : Cursor) :
    literal c =
      match c.current.kind with
      | .number => numeral c
      | .string => .done (.string c.current.value c.current.span) c.next
      | .kwTrue => .done (.bool true c.current.span) c.next
      | .kwFalse => .done (.bool false c.current.span) c.next
      | _ => .failed (c.unexpected "literal") c := by
  simp only [literal, Reading.cursor_bind, numeral]
  cases c.current.kind
  case number => cases Numeral.value? c.current.value.toList <;> rfl
  all_goals rfl

theorem meets_numeral {c d : Cursor} (hstep : w.InStep c d) (hkind : c.current.kind = .number) :
    w.Meets (c.index + 1) (Expr.Matches w.Related) (numeral c) (numeral d) := by
  have htoken := hstep.current
  have hsome := htoken.alike.number hkind
  rw [numeral, numeral]
  cases hvalue : Numeral.value? c.current.value.toList with
  | none =>
    have hnone : Numeral.value? d.current.value.toList = none := by simpa [hvalue] using hsome
    rw [hnone]
    exact .failed (.numberOutOfRange htoken hkind hvalue) hstep
  | some value =>
    obtain ⟨value', hvalue'⟩ : ∃ value', Numeral.value? d.current.value.toList = some value' :=
      Option.isSome_iff_exists.1 (by rw [hsome, hvalue]; rfl)
    rw [hvalue']
    exact meets_next hstep (by simp [Cursor.kind, hkind]) (.number htoken hkind hvalue hvalue')

theorem follows_literal : w.Follows 0 1 literal literal (Expr.Matches w.Related) := by
  intro c d hstep _
  have htoken := hstep.current
  rw [literal_apply, literal_apply, htoken.alike.kind]
  split
  · next hkind => exact meets_numeral hstep hkind
  · next hkind => exact meets_next hstep (by simp [Cursor.kind, hkind]) (.string htoken hkind)
  · next hkind => exact meets_next hstep (by simp [Cursor.kind, hkind]) (.bool true htoken hkind)
  · next hkind => exact meets_next hstep (by simp [Cursor.kind, hkind]) (.bool false htoken hkind)
  · exact .failed (hstep.unexpected "literal") hstep

variable {inner : Inner} [inner.Forward] (h : w.Reads inner)

include h

theorem follows_arguments :
    w.Follows 0 1 (arguments inner) (arguments inner) (List.Forall₂ (Expr.Matches w.Related)) := by
  refine (Follows.expect .openParen (by decide)).bind fun _ _ _ => ?_
  exact (follows_commaList (fun _ => .expect _ (by decide)) (h.expr .lowest)).goes

theorem follows_link {start start' : Position} {object object' : Expr} (hstart : w.Starts start start')
    (hobject : object.Matches w.Related object') :
    w.Follows 0 1 (link inner start object) (link inner start' object') (Expr.Matches w.Related) := by
  refine (Follows.accept .dot).bind ?_
  rintro dot _ rfl
  refine Follows.ite ?_ ?_
  · refine follows_identifier.bind fun property property' hproperty => ?_
    exact (Follows.spanFrom hstart).bind fun s s' hs => .pure (.member hobject hproperty hs)
  · refine (follows_arguments h).bind fun es es' hes => ?_
    refine (Follows.accept .question).bind ?_
    rintro propagate _ rfl
    exact (Follows.spanFrom hstart).bind fun s s' hs => .pure (.call propagate hobject hes hs)

theorem follows_chain : w.Follows 0 1 (chain inner) (chain inner) (Expr.Matches w.Related) := by
  refine Follows.here.bind fun start start' hstart => ?_
  refine follows_identifier.bind fun name name' hname => ?_
  obtain ⟨htoken, hkind⟩ := hname
  exact Follows.whileAt rfl (fun object object' => follows_link h hstart) (.symbol htoken hkind)

theorem follows_signed : w.Follows 0 1 (signed inner) (signed inner) (Expr.Matches w.Related) := by
  refine Follows.advance.bind fun t u htoken => ?_
  refine (h.expr .unary).bind fun operand operand' hoperand => ?_
  rw [htoken.alike.kind]
  exact (Follows.spanFrom htoken.starts).bind fun s s' hs => .pure (.unary _ hoperand hs)

theorem follows_group : w.Follows 0 1 (group inner) (group inner) (Expr.Matches w.Related) := by
  refine (Follows.expect .openParen (by decide)).bind fun _ _ _ => ?_
  refine (h.expr .lowest).goes.bind fun e e' he => ?_
  exact ((Follows.expect .closeParen (by decide)).bind fun _ _ _ => .pure he).goes

theorem follows_list : w.Follows 0 1 (list inner) (list inner) (Expr.Matches w.Related) := by
  refine (Follows.expect .openBracket (by decide)).bind fun t u htoken => ?_
  refine (follows_commaList (fun _ => .expect _ (by decide)) (h.expr .lowest)).goes.bind fun es es' hes => ?_
  exact (Follows.spanFrom htoken.1.starts).bind fun s s' hs => .pure (.list hes hs)

theorem follows_pair : w.Follows 0 1 (pair inner) (pair inner) (Pair.Matches w.Related) := by
  refine (h.expr .lowest).bind fun key key' hkey => ?_
  refine (Follows.expect .colon (by decide)).goes.bind fun _ _ _ => ?_
  refine (h.expr .lowest).goes.bind fun value value' hvalue => ?_
  exact .pure (.intro hkey hvalue (hkey.span.through hvalue.span))

theorem follows_map : w.Follows 0 1 (map inner) (map inner) (Expr.Matches w.Related) := by
  refine (Follows.expect .openCurly (by decide)).bind fun t u htoken => ?_
  refine (follows_commaList (fun _ => .expect _ (by decide)) (follows_pair h)).goes.bind fun ps ps' hps => ?_
  exact (Follows.spanFrom htoken.1.starts).bind fun s s' hs => .pure (.map hps hs)

theorem follows_new : w.Follows 0 1 (new inner) (new inner) (Expr.Matches w.Related) := by
  refine (Follows.expect .kwNew (by decide)).bind fun t u htoken => ?_
  refine follows_identifier.goes.bind fun type type' htype => ?_
  refine (follows_arguments h).goes.bind fun es es' hes => ?_
  exact (Follows.spanFrom htoken.1.starts).bind fun s s' hs => .pure (.new htype hes hs)

theorem follows_armBody :
    w.Follows 0 1 (armBody inner) (armBody inner) (ArmBody.Matches w.Related) := by
  refine Follows.kind_bind fun kind => ?_
  split
  · refine Follows.advance.bind fun _ _ _ => ?_
    exact (h.expr .lowest).map fun _ _ => .expr
  · exact h.block.map fun _ _ => .block
  · exact .unexpected _

theorem follows_arm : w.Follows 0 1 (arm inner) (arm inner) (Arm.Matches w.Related) := by
  refine Follows.advance.bind fun t u htoken => ?_
  refine (h.expr .lowest).bind fun pattern pattern' hpattern => ?_
  refine (follows_armBody h).goes.bind fun body body' hbody => ?_
  exact (Follows.spanFrom htoken.starts).bind fun s s' hs => .pure (.intro hpattern hbody hs)

theorem follows_choice : w.Follows 0 1 (choice inner) (choice inner) (Expr.Matches w.Related) := by
  refine (Follows.expect .kwMatch (by decide)).bind fun t u htoken => ?_
  refine (h.expr .lowest).goes.bind fun scrutinee scrutinee' hscrutinee => ?_
  refine (Follows.many rfl (follows_arm h)).bind fun arms arms' harms => ?_
  refine (Follows.ifAt (follows_arm h).goes).bind fun last? last?' hlast => ?_
  exact (Follows.spanFrom htoken.1.starts).bind fun s s' hs => .pure (.choice hscrutinee harms hlast hs)

theorem follows_lambda : w.Follows 0 1 (lambda inner) (lambda inner) (Expr.Matches w.Related) := by
  refine (Follows.expect .kwLambda (by decide)).bind fun t u htoken => ?_
  refine follows_parameters.goes.bind fun names names' hnames => ?_
  refine (Follows.expect .arrow (by decide)).goes.bind fun _ _ _ => ?_
  refine (h.expr .lowest).goes.bind fun body body' hbody => ?_
  exact (Follows.spanFrom htoken.1.starts).bind fun s s' hs => .pure (.lambda hnames hbody hs)

theorem follows_anonymousFunction :
    w.Follows 0 1 (anonymousFunction inner) (anonymousFunction inner) (Expr.Matches w.Related) := by
  refine (Follows.expect .kwFn (by decide)).bind fun t u htoken => ?_
  refine follows_parameters.goes.bind fun names names' hnames => ?_
  refine h.block.goes.bind fun body body' hbody => ?_
  exact (Follows.spanFrom htoken.1.starts).bind fun s s' hs => .pure (.function hnames hbody hs)

theorem follows_operandOf (form : OperandForm) :
    w.Follows 0 1 (operandOf inner form) (operandOf inner form) (Expr.Matches w.Related) := by
  cases form with
  | literal => exact follows_literal
  | chain => exact follows_chain h
  | list => exact follows_list h
  | map => exact follows_map h
  | signed => exact follows_signed h
  | group => exact follows_group h
  | new => exact follows_new h
  | choice => exact follows_choice h
  | lambda => exact follows_lambda h
  | function => exact follows_anonymousFunction h

theorem follows_operand : w.Follows 0 1 (operand inner) (operand inner) (Expr.Matches w.Related) := by
  refine Follows.kind_bind fun kind => ?_
  split
  · exact follows_operandOf h _
  · exact .unexpected _

/-! ## Operators -/

/-- The left operand is only put in front of what is read, whatever it is. -/
theorem follows_operation (power : BindingPower) (left left' : Expr) :
    w.Follows 0 1 (operation inner power left) (operation inner power left') fun e e' =>
      ∃ op right right', right.Matches w.Related right'
        ∧ e = .binary op left right (left.span.through right.span)
        ∧ e' = .binary op left' right' (left'.span.through right'.span) := by
  refine Follows.next (fun token => ?_) .advance fun t u htoken => ?_
  · split <;> infer_instance
  rw [htoken.alike.kind]
  split
  · refine (h.expr power).bind fun right right' hright => ?_
    exact .pure ⟨_, right, right', hright, rfl, rfl⟩
  · exact .fail (.unexpectedToken _ htoken)

theorem follows_nextOperation {left left' : Expr} (hleft : left.Matches w.Related left') :
    w.Follows 0 1 (nextOperation inner left) (nextOperation inner left') (Expr.Matches w.Related) := by
  refine Follows.kind_bind fun kind => ?_
  cases kind.infixForm? with
  | none => exact .unexpected _
  | some form =>
    cases form
    refine (follows_operation h kind.bindingPower left left').imp ?_
    rintro _ _ ⟨op, right, right', hright, rfl, rfl⟩
    exact .binary op hleft hright (hleft.span.through hright.span)

theorem follows_operations (power : BindingPower) :
    w.Follows 0 1 (operations inner power) (operations inner power) (Expr.Matches w.Related) := by
  have hend : bindsTighter power .endOfInput = false := by cases power <;> rfl
  refine (follows_operand h).bind fun first first' hfirst => ?_
  exact Follows.whileAt hend (fun left left' => follows_nextOperation h) hfirst

theorem follows_expression (power : BindingPower) :
    w.Follows 0 1 (expression inner power) (expression inner power) (Expr.Matches w.Related) :=
  (follows_operations h power).within

end WattFront.TapePair
