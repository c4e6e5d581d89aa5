import WattFront.Proofs.Grammar.ParallelExpressions

/-! # Statements and items read side by side

Two runs of a construct of statements or items on tapes that are alike stay in step, like those of
expressions. Two places look further than at the kind of the current token: the word `impl` behind the name
of a type, and the token behind `else`, which is consumed before anything comes of it.

* `reads_nested` — expressions and blocks of any depth;
* `follows_item`, `follows_items` — the items of a program.
-/

namespace WattFront.TapePair

open Grammar

variable {w : TapePair} {least : Nat} {inner : Inner} [inner.Forward]

section

variable (h : w.Reads inner)

include h

/-! ## Statements -/

theorem follows_chainStatement :
    w.Follows 0 1 (chainStatement inner) (chainStatement inner) (Stmt.Matches w.Related) := by
  refine Follows.next (fun start => ?_) .here fun start start' hstart => ?_
  · refine Reading.Forward.next fun target => Reading.Forward.next fun kind => ?_
    split
    · infer_instance
    · split <;> infer_instance
  refine Follows.next (fun target => ?_) (follows_chain h) fun target target' htarget => ?_
  · refine Reading.Forward.next fun kind => ?_
    split
    · infer_instance
    · split <;> infer_instance
  refine Follows.kind_bind fun kind => Follows.ite ?_ ?_
  · refine Follows.advance.bind fun _ _ _ => ?_
    refine (h.expr .lowest).goes.bind fun value value' hvalue => ?_
    exact (Follows.spanFrom hstart).bind fun s s' hs => .pure (.define htarget hvalue hs)
  · split
    · refine Follows.advance.bind fun _ _ _ => ?_
      refine (h.expr .lowest).goes.bind fun value value' hvalue => ?_
      exact (Follows.spanFrom hstart).bind fun s s' hs => .pure (.assign _ htarget hvalue hs)
    · exact (Follows.spanFrom hstart).bind fun s s' hs => .pure (.expression htarget hs)

theorem follows_returnValue :
    w.Follows 0 1 (returnValue inner) (returnValue inner) (Stmt.Matches w.Related) := by
  refine (Follows.expect .kwReturn (by decide)).bind fun t u htoken => ?_
  refine (h.expr .lowest).goes.bind fun value value' hvalue => ?_
  exact (Follows.spanFrom htoken.1.starts).bind fun s s' hs => .pure (.returnValue hvalue hs)

theorem follows_whileLoop :
    w.Follows 0 1 (whileLoop inner) (whileLoop inner) (Stmt.Matches w.Related) := by
  refine (Follows.expect .kwWhile (by decide)).bind fun t u htoken => ?_
  refine (h.expr .lowest).goes.bind fun condition condition' hcondition => ?_
  refine h.block.goes.bind fun body body' hbody => ?_
  exact (Follows.spanFrom htoken.1.starts).bind fun s s' hs => .pure (.whileLoop hcondition hbody hs)

theorem follows_branch : w.Follows 0 1 (branch inner) (branch inner) (Branch.Matches w.Related) := by
  refine Follows.advance.bind fun t u htoken => ?_
  refine (h.expr .lowest).bind fun condition condition' hcondition => ?_
  refine h.block.goes.bind fun body body' hbody => ?_
  exact (Follows.spanFrom htoken.starts).bind fun s s' hs => .pure (.intro hcondition hbody hs)

/-- What stands behind `else` decides, but `else` is consumed first, and then it is the current token. -/
theorem follows_otherwise :
    w.Follows least 0 (Reading.ifAt .kwElse (otherwise inner)) (Reading.ifAt .kwElse (otherwise inner))
      (Option.Rel (Block.Matches w.Related)) := by
  intro c d hstep _
  rw [Reading.ifAt, Reading.ifAt, hstep.kind]
  split
  · next hkind =>
    refine Meets.map (R := Block.Matches w.Related) ?_ fun _ _ => .some
    rw [otherwise, Reading.cursor_bind, Reading.cursor_bind, Reading.advance_bind, Reading.advance_bind]
    rcases hstep.next_of_ne (by simp [hkind]) with ⟨hnext, hindex⟩ | hbeyond
    · rw [hstep.peek (hindex ▸ hnext.inside)]
      refine Meets.mono (Follows.ite (.unexpected _) h.block.goes hnext (Nat.le_refl _)) ?_
      omega
    · refine .beyond (Beyond.forward (x := if c.peek 1 = .kwIf then _ else inner.block) hbeyond)
  · exact .done .none hstep (Nat.le_refl _)

theorem follows_conditional :
    w.Follows 0 1 (conditional inner) (conditional inner) (Stmt.Matches w.Related) := by
  refine (Follows.expect .kwIf (by decide)).bind fun t u htoken => ?_
  refine (h.expr .lowest).goes.bind fun condition condition' hcondition => ?_
  refine h.block.goes.bind fun body body' hbody => ?_
  refine (Follows.many rfl (follows_branch h)).bind fun elifs elifs' helifs => ?_
  refine (follows_otherwise h).bind fun last? last?' hlast => ?_
  exact (Follows.spanFrom htoken.1.starts).bind fun s s' hs =>
    .pure (.conditional hcondition hbody helifs hlast hs)

theorem follows_forLoop : w.Follows 0 1 (forLoop inner) (forLoop inner) (Stmt.Matches w.Related) := by
  refine (Follows.expect .kwFor (by decide)).bind fun t u htoken => ?_
  refine (Follows.expectAs .identifier (by decide) _).goes.bind fun t' u' hname => ?_
  refine (Follows.expect .kwIn (by decide)).goes.bind fun _ _ _ => ?_
  refine (h.expr .lowest).goes.bind fun iterable iterable' hiterable => ?_
  refine h.block.goes.bind fun body body' hbody => ?_
  exact (Follows.spanFrom htoken.1.starts).bind fun s s' hs =>
    .pure (.forLoop (.intro hname.1 hname.2) hiterable hbody hs)

omit h in
theorem follows_native : w.Follows 0 1 native native (Stmt.Matches w.Related) := by
  refine (Follows.expect .kwNative (by decide)).bind fun t u htoken => ?_
  refine follows_identifier.goes.bind fun name name' hname => ?_
  refine (Follows.expect .arrow (by decide)).goes.bind fun _ _ _ => ?_
  refine (Follows.expectAs .string (by decide) _).goes.bind fun t' u' hsymbol => ?_
  exact (Follows.spanFrom htoken.1.starts).bind fun s s' hs =>
    .pure (.native hname hsymbol.1 hsymbol.2 hs)

theorem follows_function :
    w.Follows 0 1 (function inner) (function inner) (Function.Matches w.Related) := by
  refine (Follows.expect .kwFn (by decide)).bind fun t u htoken => ?_
  refine follows_identifier.goes.bind fun name name' hname => ?_
  refine (Follows.ifAt follows_parameters.goes).bind fun names? names?' hnames => ?_
  refine (Follows.ifAt h.block.goes).bind fun body? body?' hbody => ?_
  exact (Follows.spanFrom htoken.1.starts).bind fun s s' hs => .pure (.intro hname hnames hbody hs)

theorem follows_statementOf (form : StatementForm) :
    w.Follows 0 1 (statementOf inner form) (statementOf inner form) (Stmt.Matches w.Related) := by
  cases form with
  | returnValue => exact follows_returnValue h
  | whileLoop => exact follows_whileLoop h
  | conditional => exact follows_conditional h
  | forLoop => exact follows_forLoop h
  | breakLoop =>
    exact (Follows.expect .kwBreak (by decide)).bind fun t u htoken =>
      .pure (.breakLoop (.token htoken.1))
  | continueLoop =>
    exact (Follows.expect .kwContinue (by decide)).bind fun t u htoken =>
      .pure (.continueLoop (.token htoken.1))
  | native => exact follows_native
  | function => exact (follows_function h).bind fun f f' hf => .pure (.function hf hf.span)

theorem follows_statement :
    w.Follows 0 1 (statement inner) (statement inner) (Stmt.Matches w.Related) := by
  refine Follows.kind_bind fun kind => Follows.ite (follows_chainStatement h) ?_
  split
  · exact follows_statementOf h _
  · exact .unexpected _

theorem follows_block : w.Follows 0 1 (block inner) (block inner) (Block.Matches w.Related) := by
  refine Follows.enter.bind fun _ _ _ => ?_
  refine (Follows.expect .openCurly (by decide)).bind fun t u htoken => ?_
  refine (Follows.many rfl (follows_statement h)).bind fun ss ss' hss => ?_
  refine (Follows.expect .closeCurly (by decide)).goes.bind fun _ _ _ => ?_
  refine Follows.leave.bind fun _ _ _ => ?_
  exact (Follows.spanFrom htoken.1.starts).bind fun s s' hs => .pure (.intro hss hs)

end

/-- Expressions and blocks stay in step, however many levels they open. -/
theorem reads_nested (levels : Nat) : w.Reads (nested levels) := by
  induction levels with
  | zero => exact ⟨fun _ => Follows.tooDeep, Follows.tooDeep⟩
  | succ levels ih => exact ⟨follows_expression ih, follows_block ih⟩

/-! ## Imports -/

theorem follows_singleImport :
    w.Follows 0 1 singleImport singleImport (Import.Matches w.Related) := by
  have halias : w.Follows 1 0 (do let _ ← Reading.advance; identifier)
      (do let _ ← Reading.advance; identifier) (Ident.Matches w.Related) :=
    Follows.advance.bind fun _ _ _ => follows_identifier.goes
  refine (Follows.expect .string (by decide)).bind fun t u hpath => ?_
  refine (Follows.ifAt halias).bind fun alias? alias?' halias => ?_
  exact (Follows.spanFrom hpath.1.starts).bind fun s s' hs => .pure (.intro hpath.1 hpath.2 halias hs)

theorem follows_importList :
    w.Follows 0 1 importList importList (List.Forall₂ (Import.Matches w.Related)) := by
  refine Follows.advance.bind fun _ _ _ => Follows.kind_bind fun kind => Follows.ite (.unexpected _) ?_
  exact follows_commaList (fun _ => .expect _ (by decide)) follows_singleImport

theorem follows_imports : w.Follows 0 1 imports imports (Stmt.Matches w.Related) := by
  refine (Follows.expect .kwImport (by decide)).bind fun t u htoken => ?_
  have hend {list list' : List Import} (hlist : List.Forall₂ (Import.Matches w.Related) list list') :
      w.Follows 1 0 (do let s ← Reading.spanFrom t.span.start; pure (Stmt.imports list s))
        (do let s ← Reading.spanFrom u.span.start; pure (Stmt.imports list' s)) (Stmt.Matches w.Related) :=
    (Follows.spanFrom htoken.1.starts).bind fun s s' hs => .pure (.imports hlist hs)
  refine Follows.kind_bind fun kind => Follows.ite ?_ ?_
  · exact follows_importList.goes.bind fun list list' hlist => hend hlist
  · refine follows_singleImport.goes.bind fun only only' honly => ?_
    exact hend (.cons honly .nil)

/-! ## Definitions -/

theorem follows_traitNames :
    w.Follows least 0 traitNames traitNames (List.Forall₂ (Ident.Matches w.Related)) := by
  refine Follows.kind_bind fun kind => Follows.ite ?_ (.pure .nil)
  exact (follows_separated follows_identifier).goes

/-- The word `impl` stands on both tapes or on neither. -/
theorem InStep.atWord {c d : Cursor} (hstep : w.InStep c d) : d.atWord "impl" = c.atWord "impl" := by
  have halike := hstep.current.alike
  rw [Cursor.atWord, Cursor.atWord, hstep.kind]
  by_cases hkind : c.kind = .identifier
  · simp [hkind, halike.word hkind]
  · simp [hkind]

theorem follows_traits? :
    w.Follows least 0 traits? traits? (Option.Rel (List.Forall₂ (Ident.Matches w.Related))) := by
  intro c d hstep hle
  have hnames : w.Follows least 0 (do let _ ← Reading.advance; some <$> traitNames)
      (do let _ ← Reading.advance; some <$> traitNames)
      (Option.Rel (List.Forall₂ (Ident.Matches w.Related))) :=
    Follows.advance.bind fun _ _ _ => follows_traitNames.map fun _ _ => .some
  rw [traits?, Reading.cursor_bind, Reading.cursor_bind, hstep.atWord]
  exact (Follows.ite hnames (.pure .none)) hstep hle

section

variable (h : w.Reads inner)

include h

theorem follows_method :
    w.Follows 0 1 (method inner) (method inner) (Function.Matches w.Related) :=
  Follows.kind_bind fun _ => Follows.ite (follows_function h) (.unexpected _)

theorem follows_itemOf (form : ItemForm) :
    w.Follows 0 1 (itemOf inner form) (itemOf inner form) (Item.Matches w.Related) := by
  cases form with
  | function => exact (follows_function h).map fun _ _ hf => .definition (.function hf)
  | trait =>
    refine Follows.map (R := fun d d' => (Definition.trait d).Matches w.Related (.trait d')) ?_
      fun _ _ => .definition
    refine (Follows.expect .kwTrait (by decide)).bind fun t u htoken => ?_
    refine follows_identifier.goes.bind fun name name' hname => ?_
    refine (Follows.expect .openCurly (by decide)).goes.bind fun _ _ _ => ?_
    refine (Follows.many rfl (follows_method h)).bind fun methods methods' hmethods => ?_
    refine (Follows.expect .closeCurly (by decide)).goes.bind fun _ _ _ => ?_
    exact (Follows.spanFrom htoken.1.starts).bind fun s s' hs => .pure (.trait hname hmethods hs)
  | type =>
    refine Follows.map (R := fun d d' => (Definition.type d).Matches w.Related (.type d')) ?_
      fun _ _ => .definition
    refine (Follows.expect .kwType (by decide)).bind fun t u htoken => ?_
    refine follows_identifier.goes.bind fun name name' hname => ?_
    refine (Follows.ifAt follows_parameters.goes).bind fun names? names?' hnames => ?_
    refine follows_traits?.bind fun traits? traits?' htraits => ?_
    refine (Follows.ifAt h.block.goes).bind fun body? body?' hbody => ?_
    exact (Follows.spanFrom htoken.1.starts).bind fun s s' hs => .pure (.type hname hnames htraits hbody hs)
  | unit =>
    refine Follows.map (R := fun d d' => (Definition.unit d).Matches w.Related (.unit d')) ?_
      fun _ _ => .definition
    refine (Follows.expect .kwUnit (by decide)).bind fun t u htoken => ?_
    refine follows_identifier.goes.bind fun name name' hname => ?_
    refine (Follows.ifAt h.block.goes).bind fun body? body?' hbody => ?_
    exact (Follows.spanFrom htoken.1.starts).bind fun s s' hs => .pure (.unit hname hbody hs)
  | imports => exact follows_imports.map fun _ _ => .statement

/-! ## Items -/

omit h in
theorem isExpression_eq {s s' : Stmt} (hs : s.Matches w.Related s') : isExpression s' = isExpression s := by
  cases hs <;> rfl

theorem follows_topLevelChain :
    w.Follows 0 1 (topLevelChain inner) (topLevelChain inner) (Stmt.Matches w.Related) := by
  intro c d hstep hle
  have htoken := hstep.current
  rw [topLevelChain, Reading.cursor_bind, Reading.cursor_bind]
  refine (show w.Follows 0 1 _ _ _ from (follows_chainStatement h).bind fun s s' hs => ?_) hstep hle
  rw [isExpression_eq hs]
  exact Follows.ite (.fail (.unexpectedToken _ htoken)) (.pure hs)

theorem follows_topLevelStatement :
    w.Follows 0 1 (topLevelStatement inner) (topLevelStatement inner) (Stmt.Matches w.Related) := by
  refine Follows.kind_bind fun kind => ?_
  split
  · exact .unexpected _
  · exact .unexpected _
  · exact follows_topLevelChain h
  · exact follows_statement h

theorem follows_item : w.Follows 0 1 (item inner) (item inner) (Item.Matches w.Related) := by
  refine Follows.kind_bind fun kind => ?_
  split
  · exact follows_itemOf h _
  · exact (follows_topLevelStatement h).map fun _ _ => .statement

end

/-- The items of two programs stay in step. -/
theorem follows_items : w.Follows least 0 items items (List.Forall₂ (Item.Matches w.Related)) :=
  Follows.many rfl (Follows.atCursor fun levels => follows_item (reads_nested levels))

end WattFront.TapePair
