import WattFront.Proofs.Grammar.Precedence

/-! # Where a construct ends

A form sees one token of what stands behind it, and it sees it only to know that nothing of that goes on with
the construct. So whatever token follows may be exchanged for any other that the construct does not go on
with.

* `stopsExpression`, `stopsStatement`, `stopsItem` — the tokens that no such construct goes on with;
* `Form.EndsBefore` — a form does not tell such tokens apart, with one lemma for each form;
* `item_endsBefore` — the result for the items of a program.
-/

namespace WattFront

/-- A form does not tell the tokens that stop it apart. -/
def Form.EndsBefore {α : Type} (form : Form α) (stops : TokenKind → Prop) : Prop :=
  ∀ ⦃tokens next next' a⦄, form tokens next a → stops next'.kind → form tokens next' a

namespace Grammar

/-- No expression goes on with a token of this kind. -/
def stopsExpression (kind : TokenKind) : Bool :=
  !bindsTighter .lowest kind && !opensLink kind && kind ≠ .question && !opensCase kind && kind ≠ .kwDefault

def stopsStatement (kind : TokenKind) : Bool :=
  stopsExpression kind && kind ≠ .define && (AssignOp.ofToken? kind).isNone && kind ≠ .openCurly
    && !opensBranch kind && kind ≠ .kwElse

def stopsItem (kind : TokenKind) : Bool :=
  stopsStatement kind && kind ≠ .identifier && kind ≠ .comma && kind ≠ .kwWith

theorem stopsExpression_of_stopsStatement {kind : TokenKind} (h : stopsStatement kind = true) :
    stopsExpression kind = true := by
  simp only [stopsStatement, Bool.and_eq_true] at h
  exact h.1.1.1.1.1

theorem stopsStatement_of_stopsItem {kind : TokenKind} (h : stopsItem kind = true) :
    stopsStatement kind = true := by
  simp only [stopsItem, Bool.and_eq_true] at h
  exact h.1.1.1

/-- What does not bind tighter than the lowest power does not bind tighter than any. -/
theorem bindsTighter_of_stopsExpression {kind : TokenKind} (h : stopsExpression kind = true)
    (power : BindingPower) : bindsTighter power kind = false := by
  simp only [stopsExpression, Bool.and_eq_true, Bool.not_eq_true'] at h
  have hlowest : bindsTighter .lowest kind = false := h.1.1.1.1
  have hrank : BindingPower.lowest.rank = 0 := rfl
  simp only [bindsTighter, decide_eq_false_iff_not, hrank] at hlowest ⊢
  omega

end Grammar

namespace Form.EndsBefore

variable {α : Type} {form : Form α} {stops stops' : TokenKind → Prop}

theorem imp (h : form.EndsBefore stops) (himp : ∀ kind, stops' kind → stops kind) :
    form.EndsBefore stops' :=
  fun _ _ _ _ hform hnext => h hform (himp _ hnext)

/-- If more tokens of the construct may follow a part of it, only the token behind all of them is
exchanged. -/
theorem headD (h : form.EndsBefore stops) {tokens others : List Token} {next next' : Token} {a : α}
    (hform : form tokens (others.headD next) a) (hnext : stops next'.kind) :
    form tokens (others.headD next') a := by
  cases others with
  | nil => exact h hform hnext
  | cons => exact hform

end Form.EndsBefore

namespace Spelling

open Grammar

/-! ## Lists and clauses -/

section

variable {α : Type} {item : Form α} {stops : TokenKind → Prop}

theorem many_endsBefore {goesOn : TokenKind → Bool} (h : item.EndsBefore stops) :
    (Many goesOn item).EndsBefore fun kind => stops kind ∧ goesOn kind = false := by
  intro tokens next next' as hmany hnext
  induction hmany with
  | nil => exact .nil hnext.2
  | cons hitem _ ih => exact .cons (h.headD hitem hnext.1) ih

theorem separated_endsBefore (h : item.EndsBefore stops) :
    (Separated item).EndsBefore fun kind => stops kind ∧ kind ≠ .comma := by
  intro tokens next next' as hitems hnext
  induction hitems with
  | one hitem => exact .one (h hitem hnext.1) hnext.2
  | more hitem hcomma _ ih => exact .more hitem hcomma ih

theorem clause_endsBefore {opening : TokenKind} (h : item.EndsBefore stops) :
    (Clause opening item).EndsBefore fun kind => stops kind ∧ kind ≠ opening := by
  intro tokens next next' a? hclause hnext
  cases hclause with
  | none => exact .none hnext.2
  | some hitem => exact .some (h hitem hnext.1)

theorem bracketed_endsBefore {opening closing : TokenKind} :
    (Bracketed opening closing item).EndsBefore fun _ => True :=
  fun _ _ _ _ hlist _ => hlist.inFront

end

theorem name_endsBefore : Name.EndsBefore fun _ => True := by
  intro tokens next next' i hname _
  obtain ⟨hkind⟩ := hname
  exact .intro hkind

theorem literal_endsBefore : Literal.EndsBefore fun _ => True := by
  intro tokens next next' e hliteral _
  cases hliteral with
  | number hkind hvalue => exact .number hkind hvalue
  | string hkind => exact .string hkind
  | true hkind => exact .true hkind
  | false hkind => exact .false hkind

/-- The expressions and blocks inside a construct do not tell the tokens behind them apart. -/
structure Inner.EndsBefore (inner : Inner) : Prop where
  expr (power : BindingPower) : (inner.expr power).EndsBefore (stopsExpression · = true)
  block : inner.block.EndsBefore fun _ => True

section

variable {inner : Inner} (h : inner.EndsBefore)

/-! ## Expressions -/

theorem chain_endsBefore :
    (Chain inner).EndsBefore fun kind => opensLink kind = false ∧ kind ≠ .question := by
  intro tokens next next' e hchain hnext
  obtain ⟨hlinks, -⟩ := hchain
  exact .intro (hlinks.inFront hnext.2) hnext.1

include h

theorem entry_endsBefore : (Entry inner).EndsBefore (stopsExpression · = true) := by
  intro tokens next next' p hentry hnext
  obtain ⟨hkey, hcolon, hvalue⟩ := hentry
  exact .intro hkey hcolon (h.expr _ hvalue hnext)

theorem body_endsBefore : (Body inner).EndsBefore (stopsExpression · = true) := by
  intro tokens next next' b hbody hnext
  cases hbody with
  | expr harrow hvalue => exact .expr harrow (h.expr _ hvalue hnext)
  | block hblock => exact .block (h.block hblock trivial)

theorem case_endsBefore (keyword : TokenKind) :
    (Case inner keyword).EndsBefore (stopsExpression · = true) := by
  intro tokens next next' a hcase hnext
  obtain ⟨hfirst, hpattern, hbody⟩ := hcase
  exact .intro hfirst ((h.expr _).headD hpattern hnext) (body_endsBefore h hbody hnext)

theorem operand_endsBefore : (Operand inner).EndsBefore (stopsExpression · = true) := by
  intro tokens next next' e hoperand hnext
  have hstops := hnext
  simp only [stopsExpression, Bool.and_eq_true, Bool.not_eq_true', decide_eq_true_eq] at hstops
  obtain ⟨⟨⟨⟨-, hlink⟩, hmark⟩, hcase⟩, hdefault⟩ := hstops
  cases hoperand with
  | literal hliteral => exact .literal (literal_endsBefore hliteral trivial)
  | chain hchain => exact .chain (chain_endsBefore hchain ⟨hlink, hmark⟩)
  | list helements => exact .list helements.inFront
  | map hpairs => exact .map hpairs.inFront
  | negate hfirst hinner => exact .negate hfirst (h.expr _ hinner hnext)
  | not hfirst hinner => exact .not hfirst (h.expr _ hinner hnext)
  | group hfirst hinner hclose => exact .group hfirst hinner hclose
  | new hfirst hname harguments => exact .new hfirst hname harguments.inFront
  | choice hfirst hscrutinee hcases hfallback =>
    refine .choice hfirst ((h.expr _).headD hscrutinee hnext) ?_ ?_
    · exact (many_endsBefore (case_endsBefore h _)).headD hcases ⟨hnext, hcase⟩
    · exact clause_endsBefore (case_endsBefore h _) hfallback ⟨hnext, hdefault⟩
  | lambda hfirst hparameters harrow hbody =>
    exact .lambda hfirst hparameters harrow (h.expr _ hbody hnext)
  | function hfirst hparameters hbody =>
    exact .function hfirst hparameters.inFront (h.block hbody trivial)

theorem operated_endsBefore (power : BindingPower) :
    (Operated inner power).EndsBefore (stopsExpression · = true) := by
  intro tokens next next' e hoperated hnext
  induction hoperated with
  | operand hoperand => exact .operand (operand_endsBefore h hoperand hnext)
  | binary hleft htight hop hright => exact .binary hleft htight hop (h.expr _ hright hnext)

theorem expression_endsBefore (power : BindingPower) :
    (Expression inner power).EndsBefore (stopsExpression · = true) := by
  intro tokens next next' e hexpression hnext
  obtain ⟨hoperated, -⟩ := hexpression
  exact .intro (operated_endsBefore h power hoperated hnext) (bindsTighter_of_stopsExpression hnext power)

/-! ## Statements -/

theorem elif_endsBefore : (Elif inner).EndsBefore (stopsExpression · = true) := by
  intro tokens next next' b helif hnext
  obtain ⟨hfirst, hcondition, hbody⟩ := helif
  exact .intro hfirst ((h.expr _).headD hcondition hnext) (h.block hbody trivial)

theorem otherwise_endsBefore : (Otherwise inner).EndsBefore fun _ => True := by
  intro tokens next next' b hotherwise _
  obtain ⟨hfirst, hbody⟩ := hotherwise
  exact .intro hfirst (h.block hbody trivial)

theorem named_endsBefore :
    (Named inner).EndsBefore fun kind => kind ≠ .openParen ∧ kind ≠ .openCurly := by
  intro tokens next next' f hnamed hnext
  obtain ⟨hfirst, hname, hparameters, hbody⟩ := hnamed
  refine .intro hfirst hname ?_ ?_
  · exact (clause_endsBefore bracketed_endsBefore).headD hparameters ⟨trivial, hnext.1⟩
  · exact clause_endsBefore h.block hbody ⟨trivial, hnext.2⟩

theorem statement_endsBefore : (Statement inner).EndsBefore (stopsStatement · = true) := by
  intro tokens next next' s hstatement hnext
  have hexpr := stopsExpression_of_stopsStatement hnext
  simp only [stopsStatement, stopsExpression, opensLink, Bool.and_eq_true, Bool.not_eq_true',
    Bool.or_eq_false_iff, decide_eq_true_eq, decide_eq_false_iff_not, Option.isNone_iff_eq_none] at hnext
  obtain ⟨⟨⟨⟨⟨⟨⟨⟨⟨-, hdot, hparen⟩, hmark⟩, -⟩, -⟩, hdefine⟩, hassign⟩, hbrace⟩, hbranch⟩, helse⟩ := hnext
  cases hstatement with
  | define htarget hmark hvalue => exact .define htarget hmark (h.expr _ hvalue hexpr)
  | assign htarget hmark hvalue => exact .assign htarget hmark (h.expr _ hvalue hexpr)
  | expression hchain =>
    refine .expression (chain_endsBefore hchain ⟨?_, hmark⟩) hdefine hassign
    simp [opensLink, hdot, hparen]
  | returnValue hfirst hvalue => exact .returnValue hfirst (h.expr _ hvalue hexpr)
  | whileLoop hfirst hcondition hbody =>
    exact .whileLoop hfirst ((h.expr _).headD hcondition hexpr) (h.block hbody trivial)
  | conditional hfirst hcondition hbody helifs hotherwise =>
    refine .conditional hfirst ((h.expr _).headD hcondition hexpr) (h.block.headD hbody trivial) ?_ ?_
    · exact (many_endsBefore (elif_endsBefore h)).headD helifs ⟨hexpr, hbranch⟩
    · exact clause_endsBefore (otherwise_endsBefore h) hotherwise ⟨trivial, helse⟩
  | forLoop hfirst hname hword hiterable hbody =>
    exact .forLoop hfirst hname hword ((h.expr _).headD hiterable hexpr) (h.block hbody trivial)
  | breakLoop hkind => exact .breakLoop hkind
  | continueLoop hkind => exact .continueLoop hkind
  | native hfirst hname harrow hsymbol => exact .native hfirst hname harrow hsymbol
  | function hnamed => exact .function (named_endsBefore h hnamed ⟨hparen, hbrace⟩)

omit h in
theorem braced_endsBefore : (Braced inner).EndsBefore fun _ => True := by
  intro tokens next next' b hbraced _
  obtain ⟨hfirst, hstatements, hclose⟩ := hbraced
  exact .intro hfirst hstatements hclose

end

/-- Expressions and blocks of any depth do not tell the tokens behind them apart. -/
theorem upTo_endsBefore (levels : Nat) : (upTo levels).EndsBefore := by
  induction levels with
  | zero => exact ⟨fun _ _ _ _ _ hform => hform.elim, fun _ _ _ _ hform => hform.elim⟩
  | succ levels ih => exact ⟨fun power => expression_endsBefore ih power, braced_endsBefore⟩

/-! ## Items -/

theorem alias_endsBefore : Alias.EndsBefore fun _ => True := by
  intro tokens next next' i halias _
  obtain ⟨hfirst, hname⟩ := halias
  exact .intro hfirst hname

theorem singleImport_endsBefore : SingleImport.EndsBefore (· ≠ .kwWith) := by
  intro tokens next next' i himport hnext
  obtain ⟨hpath, halias⟩ := himport
  exact .intro hpath (clause_endsBefore alias_endsBefore halias ⟨trivial, hnext⟩)

theorem imports_endsBefore : Imports.EndsBefore (· ≠ .kwWith) := by
  intro tokens next next' is himports hnext
  cases himports with
  | one himport => exact .one (singleImport_endsBefore himport hnext)
  | list hfirst himports hclose => exact .list hfirst himports hclose

theorem traits_endsBefore : Traits.EndsBefore fun kind => kind ≠ .identifier ∧ kind ≠ .comma := by
  intro tokens next next' names? htraits hnext
  cases htraits with
  | none => exact .none fun himpl => hnext.1 himpl.1
  | some hword hnames =>
    cases hnames with
    | nil => exact .some hword (.nil hnext.1)
    | cons hnames => exact .some hword (.cons (separated_endsBefore name_endsBefore hnames ⟨trivial, hnext.2⟩))

section

variable {inner : Inner} (h : inner.EndsBefore)

include h

theorem defined_endsBefore : (Defined inner).EndsBefore (stopsItem · = true) := by
  intro tokens next next' d hdefined hnext
  simp only [stopsItem, stopsStatement, stopsExpression, opensLink, Bool.and_eq_true, Bool.not_eq_true',
    Bool.or_eq_false_iff, decide_eq_true_eq, decide_eq_false_iff_not] at hnext
  obtain ⟨⟨⟨⟨⟨⟨⟨⟨⟨⟨⟨⟨-, -, hparen⟩, -⟩, -⟩, -⟩, -⟩, -⟩, hbrace⟩, -⟩, -⟩, hname'⟩, hcomma⟩, -⟩ := hnext
  cases hdefined with
  | function hnamed => exact .function (named_endsBefore h hnamed ⟨hparen, hbrace⟩)
  | trait hfirst hname hopen hmethods hclose => exact .trait hfirst hname hopen hmethods hclose
  | type hfirst hname hparameters htraits hbody =>
    refine .type hfirst hname ?_ (traits_endsBefore.headD htraits ⟨hname', hcomma⟩) ?_
    · exact (clause_endsBefore bracketed_endsBefore).headD hparameters ⟨trivial, hparen⟩
    · exact clause_endsBefore h.block hbody ⟨trivial, hbrace⟩
  | unit hfirst hname hbody =>
    exact .unit hfirst hname (clause_endsBefore h.block hbody ⟨trivial, hbrace⟩)

/-- An item may stand in front of any token that no item goes on with. -/
theorem item_endsBefore : (Item inner).EndsBefore (stopsItem · = true) := by
  intro tokens next next' i hitem hnext
  have hwith : next'.kind ≠ .kwWith := by
    simp only [stopsItem, Bool.and_eq_true, decide_eq_true_eq] at hnext
    exact hnext.2
  cases hitem with
  | definition hdefined => exact .definition (defined_endsBefore h hdefined hnext)
  | imports hfirst himports => exact .imports hfirst (imports_endsBefore himports hwith)
  | statement hstatement halone =>
    exact .statement (statement_endsBefore h hstatement (stopsStatement_of_stopsItem hnext)) halone

end

end Spelling

end WattFront
