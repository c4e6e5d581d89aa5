import WattFront.Proofs.Grammar.ProgramForms
import WattFront.Proofs.Tree.Covering

/-! # The outlines of a form lie over its tokens

A form *lays* outlines if the outlines of each value cover the tokens of the value, one after the other.
Every form of the grammar does, from the names up to the items of a program. The span of a node is stated in
four ways, as the span of a token, as that of all tokens of the construct, from the left part to the right
one, and as a copy of the span of the only part; each of them is the stretch of some of the tokens.

* `Form.Lays` — with one lemma for each form;
* `items_lay` — the result for the items of a program.
-/

namespace WattFront

open Outline

/-- The outlines of a value lie over its tokens. -/
def Form.Lays {α : Type} (form : Form α) (outlines : α → List Outline) : Prop :=
  ∀ ⦃tokens next a⦄, form tokens next a → Laid tokens (outlines a)

def Form.Covered {α : Type} (form : Form α) (outline : α → Outline) : Prop :=
  ∀ ⦃tokens next a⦄, form tokens next a → Covers tokens (outline a)

theorem Form.Covered.lays {α : Type} {form : Form α} {outline : α → Outline} (h : form.Covered outline) :
    form.Lays fun a => [outline a] :=
  fun _ _ _ hform => (h hform).laid

namespace Spelling

open Grammar

/-! ## Lists and clauses -/

section

variable {α : Type} {item : Form α} {outline : α → Outline} {outlines : α → List Outline}

theorem many_lays {goesOn : TokenKind → Bool} (h : item.Covered outline) :
    (Many goesOn item).Lays (·.map outline) := by
  intro tokens next as hmany
  induction hmany with
  | nil => exact .nil
  | cons hitem _ ih => exact .cons (h hitem) ih

theorem separated_lays (h : item.Covered outline) : (Separated item).Lays (·.map outline) := by
  intro tokens next as hitems
  induction hitems with
  | one hitem => exact (h hitem).laid
  | more hitem _ _ ih => exact .cons (h hitem) (ih.behind _)

theorem bracketed_lays {opening closing : TokenKind} (h : item.Covered outline) :
    (Bracketed opening closing item).Lays (·.map outline) := by
  intro tokens next as hlist
  obtain ⟨-, hlist⟩ := hlist
  cases hlist with
  | nil => exact .nil
  | cons hitems => exact ((separated_lays h hitems).append_right _).behind _

theorem clause_lays {opening : TokenKind} (h : item.Lays outlines) :
    (Clause opening item).Lays (·.elim [] outlines) := by
  intro tokens next a? hclause
  cases hclause with
  | none => exact .nil
  | some hitem => exact h hitem

end

theorem identifier_covered (role : String) {token : Token} (hkind : token.kind = .identifier) :
    Covers [token] (Ident.outline role ⟨token.value, token.span⟩) :=
  covers_token rfl ⟨fun _ => ⟨token, rfl, hkind, rfl⟩, by simp, by simp, by simp⟩

theorem name_covered (role : String) : Name.Covered (Ident.outline role) := by
  intro tokens next i hname
  obtain ⟨hkind⟩ := hname
  exact identifier_covered role hkind

theorem parameters_lay : Parameters.Lays outlineParameters :=
  bracketed_lays (name_covered "param")

theorem parameters?_lay :
    (Clause .openParen Parameters).Lays fun parameters? => outlineParameters (parameters?.getD []) := by
  intro tokens next parameters? hclause
  have hlaid := clause_lays parameters_lay hclause
  cases parameters? <;> exact hlaid

theorem literal_covered (role : String) : Literal.Covered (Expr.outline role) := by
  intro tokens next e hliteral
  cases hliteral with
  | number hkind hvalue =>
    exact covers_token rfl ⟨by simp, fun _ => ⟨_, _, rfl, hkind, hvalue, rfl⟩, by simp, by simp⟩
  | string hkind => exact covers_token rfl ⟨by simp, by simp, by simp, fun _ => ⟨_, rfl, hkind, rfl⟩⟩
  | true hkind | false hkind =>
    exact covers_token rfl ⟨by simp, by simp, fun _ => ⟨_, _, rfl, by simpa using hkind, rfl⟩, by simp⟩

structure Inner.Covered (inner : Inner) : Prop where
  expr (role : String) (power : BindingPower) : (inner.expr power).Covered (Expr.outline role)
  block (role : String) : inner.block.Covered (Block.outline role)

section

variable {inner : Inner} (h : inner.Covered)

include h

/-! ## Expressions -/

theorem exprs_lay {opening closing : TokenKind} (role : String) (power : BindingPower) :
    (Bracketed opening closing (inner.expr power)).Lays (Expr.outlines role) := by
  intro tokens next es hlist
  rw [Expr.outlines_eq]
  exact bracketed_lays (h.expr role power) hlist

theorem block?_lay {opening : TokenKind} (role : String) :
    (Clause opening inner.block).Lays (Block.outline? role) := by
  intro tokens next body? hclause
  have hlaid := clause_lays (h.block role).lays hclause
  cases body? <;> exact hlaid

theorem links_covered (role : String) : (Links inner).Covered (Expr.outline role) := by
  intro tokens next e hlinks
  induction hlinks generalizing role with
  | @name token next hkind =>
    exact covers_token rfl ⟨fun _ => ⟨token, rfl, hkind, rfl⟩, by simp, by simp, by simp⟩
  | member _ _ hproperty ih =>
    have hname := identifier_covered "property" hproperty
    exact covers_node (by simp) rfl (by simp) (.cons (ih "object") (hname.laid.behind _))
  | call _ harguments _ ih =>
    have hne := (ih "callee").ne_nil
    exact covers_node (by simp [hne]) rfl (by simp)
      (.cons (ih "callee") (exprs_lay h "argument" _ harguments))
  | propagate _ harguments _ ih =>
    have hne := (ih "callee").ne_nil
    exact covers_node (by simp [hne]) rfl (by simp)
      (.cons (ih "callee") ((exprs_lay h "argument" _ harguments).append_right _))

theorem chain_covered (role : String) : (Chain inner).Covered (Expr.outline role) := by
  intro tokens next e hchain
  obtain ⟨hlinks, -⟩ := hchain
  exact links_covered h role hlinks

theorem entry_covered : (Entry inner).Covered Pair.outline := by
  intro tokens next p hentry
  obtain ⟨hkey, -, hvalue⟩ := hentry
  refine covers_through (h.expr "key" _ hkey) (h.expr "value" _ hvalue) _ ?_ (by simp)
  rw [Expr.span_outline, Expr.span_outline]

theorem body_covered : (Body inner).Covered ArmBody.outline := by
  intro tokens next b hbody
  cases hbody with
  | expr _ hvalue => exact (h.expr "body" _ hvalue).append_left [_]
  | block hblock => exact h.block "body" hblock

theorem case_covered (role : String) (keyword : TokenKind) :
    (Case inner keyword).Covered (Arm.outline role) := by
  intro tokens next a hcase
  obtain ⟨-, hpattern, hbody⟩ := hcase
  exact covers_behind rfl (by simp) (.cons (h.expr "pattern" _ hpattern) (body_covered h hbody).laid)

theorem cases_lay {goesOn : TokenKind → Bool} :
    (Many goesOn (Case inner .kwCase)).Lays Arm.outlines := by
  intro tokens next arms hmany
  rw [Arm.outlines_eq]
  exact many_lays (case_covered h "case" _) hmany

theorem fallback_lays : (Clause .kwDefault (Case inner .kwDefault)).Lays Arm.outline? := by
  intro tokens next arm? hclause
  have hlaid := clause_lays (case_covered h "default" _).lays hclause
  cases arm? <;> exact hlaid

theorem operand_covered (role : String) : (Operand inner).Covered (Expr.outline role) := by
  intro tokens next e hoperand
  cases hoperand with
  | literal hliteral => exact literal_covered role hliteral
  | chain hchain => exact chain_covered h role hchain
  | list helements =>
    refine covers_node ?_ rfl (by simp) (exprs_lay h "element" _ helements)
    cases helements
    exact List.cons_ne_nil _ _
  | map hpairs =>
    refine covers_node ?_ rfl (by simp) ?_
    · cases hpairs
      exact List.cons_ne_nil _ _
    · rw [Pair.outlines_eq]
      exact bracketed_lays (entry_covered h) hpairs
  | negate _ hinner | not _ hinner =>
    exact covers_behind rfl (by simp) (h.expr "operand" _ hinner).laid
  | group _ hinner _ => exact (h.expr role _ hinner).within [_] [_]
  | new _ hname harguments =>
    have htype := identifier_covered "type" hname
    exact covers_behind rfl (by simp) (.cons htype (exprs_lay h "argument" _ harguments))
  | choice _ hscrutinee hcases hfallback =>
    exact covers_behind rfl (by simp)
      (.cons (h.expr "scrutinee" _ hscrutinee)
        ((cases_lay h hcases).append (fallback_lays h hfallback)))
  | lambda _ hparameters _ hbody =>
    exact covers_behind rfl (by simp)
      ((parameters_lay hparameters).append ((h.expr "body" _ hbody).laid.behind _))
  | function _ hparameters hbody =>
    exact covers_behind rfl (by simp) ((parameters_lay hparameters).append (h.block "body" hbody).laid)

theorem operated_covered (role : String) (power : BindingPower) :
    (Operated inner power).Covered (Expr.outline role) := by
  intro tokens next e hoperated
  induction hoperated generalizing role with
  | operand hoperand => exact operand_covered h role hoperand
  | binary _ _ _ hright ih =>
    refine covers_through (ih "left") (h.expr "right" _ hright) _ ?_ (by simp)
    rw [Expr.span_outline, Expr.span_outline]

theorem expression_covered (role : String) (power : BindingPower) :
    (Expression inner power).Covered (Expr.outline role) := by
  intro tokens next e hexpression
  obtain ⟨hoperated, -⟩ := hexpression
  exact operated_covered h role power hoperated

/-! ## Statements -/

theorem elif_covered : (Elif inner).Covered Branch.outline := by
  intro tokens next b helif
  obtain ⟨-, hcondition, hbody⟩ := helif
  exact covers_behind rfl (by simp) (.cons (h.expr "condition" _ hcondition) (h.block "body" hbody).laid)

theorem elifs_lay {goesOn : TokenKind → Bool} :
    (Many goesOn (Elif inner)).Lays Branch.outlines := by
  intro tokens next branches hmany
  rw [Branch.outlines_eq]
  exact many_lays (elif_covered h) hmany

theorem otherwise_lays : (Clause .kwElse (Otherwise inner)).Lays (Block.outline? "else") := by
  intro tokens next body? hclause
  have hlaid : Laid tokens (body?.elim [] fun body => [body.outline "else"]) := by
    refine clause_lays (fun _ _ _ hotherwise => ?_) hclause
    obtain ⟨-, hbody⟩ := hotherwise
    exact (h.block "else" hbody).laid.behind _
  cases body? <;> exact hlaid

theorem named_covered (role : String) : (Named inner).Covered (Function.outline role) := by
  intro tokens next f hnamed
  obtain ⟨-, hname, hparameters, hbody⟩ := hnamed
  have hidentifier := identifier_covered "name" hname
  exact covers_behind rfl (by simp)
    (.cons hidentifier ((parameters?_lay hparameters).append (block?_lay h "body" hbody)))

theorem statement_covered (role : String) : (Statement inner).Covered (Stmt.outline role) := by
  intro tokens next s hstatement
  cases hstatement with
  | define htarget _ hvalue | assign htarget _ hvalue =>
    exact covers_node (by simp) rfl (by simp)
      (.cons (chain_covered h "target" htarget) ((h.expr "value" _ hvalue).laid.behind _))
  | expression hchain =>
    have hvalue := chain_covered h "value" hchain
    exact covers_node hvalue.ne_nil rfl (by simp) hvalue.laid
  | returnValue _ hvalue =>
    exact covers_behind rfl (by simp) (h.expr "value" _ hvalue).laid
  | whileLoop _ hcondition hbody =>
    exact covers_behind rfl (by simp) (.cons (h.expr "condition" _ hcondition) (h.block "body" hbody).laid)
  | conditional _ hcondition hbody helifs hotherwise =>
    exact covers_behind rfl (by simp)
      (.cons (h.expr "condition" _ hcondition) (.cons (h.block "then" hbody)
        ((elifs_lay h helifs).append (otherwise_lays h hotherwise))))
  | forLoop _ hname _ hiterable hbody =>
    have helement := identifier_covered "variable" hname
    exact covers_behind rfl (by simp)
      (.cons helement (.behind
        (.cons (h.expr "iterable" _ hiterable) (h.block "body" hbody).laid) _))
  | breakLoop | continueLoop =>
    exact covers_behind rfl (by simp) .nil
  | @native _ _ arrow symbol _ _ hname _ _ =>
    have hidentifier := identifier_covered "name" hname
    exact covers_behind rfl (by simp) (hidentifier.laid.append_right [arrow, symbol])
  | function hnamed =>
    exact covers_only (named_covered h "function" hnamed) (Function.span_outline _ _).symm
      (by simp)

theorem braced_covered (role : String) : (Braced inner).Covered (Block.outline role) := by
  intro tokens next b hbraced
  obtain ⟨-, hstatements, -⟩ := hbraced
  refine covers_behind rfl (by simp) ?_
  rw [Stmt.outlines_eq]
  exact (many_lays (statement_covered h "stmt") hstatements).append_right _

end

/-- The outlines of expressions and blocks of any depth cover their tokens. -/
theorem upTo_covered (levels : Nat) : (upTo levels).Covered := by
  induction levels with
  | zero => exact ⟨fun _ _ _ _ _ hform => hform.elim, fun _ _ _ _ hform => hform.elim⟩
  | succ levels ih => exact ⟨expression_covered ih, braced_covered ih⟩

/-! ## Items -/

theorem singleImport_covered : SingleImport.Covered Import.outline := by
  intro tokens next i himport
  obtain @⟨path, tokens, next, alias?, -, halias⟩ := himport
  refine covers_behind rfl (by simp) ?_
  have hlaid : Laid tokens (alias?.elim [] fun i => [Ident.outline "alias" i]) := by
    refine clause_lays (fun _ _ _ halias => ?_) halias
    obtain ⟨-, hname⟩ := halias
    exact (identifier_covered "alias" hname).laid.behind _
  cases alias? <;> exact hlaid

theorem imports_lay : Imports.Lays (·.map Import.outline) := by
  intro tokens next is himports
  cases himports with
  | one himport => exact (singleImport_covered himport).laid
  | list _ himports _ => exact ((separated_lays singleImport_covered himports).append_right _).behind _

theorem traits_lay : Traits.Lays fun traits? => (traits?.getD []).map (Ident.outline "trait") := by
  intro tokens next traits? htraits
  cases htraits with
  | none => exact .nil
  | some _ hnames =>
    cases hnames with
    | nil => exact .nil
    | cons hnames => exact (separated_lays (name_covered "trait") hnames).behind _

section

variable {inner : Inner} (h : inner.Covered)

include h

theorem defined_covered (role : String) : (Defined inner).Covered (Definition.outline role) := by
  intro tokens next d hdefined
  cases hdefined with
  | function hnamed => exact named_covered h role hnamed
  | trait _ hname _ hmethods _ =>
    have hidentifier := identifier_covered "name" hname
    exact covers_behind rfl (by simp)
      (.cons hidentifier
        (.behind ((many_lays (named_covered h "method") hmethods).append_right _) _))
  | type _ hname hparameters htraits hbody =>
    have hidentifier := identifier_covered "name" hname
    have hparts := (parameters?_lay hparameters).append ((traits_lay htraits).append (block?_lay h "body" hbody))
    rw [← List.append_assoc] at hparts
    exact covers_behind rfl (by simp) (.cons hidentifier (by simpa using hparts))
  | unit _ hname hbody =>
    have hidentifier := identifier_covered "name" hname
    exact covers_behind rfl (by simp) (.cons hidentifier (block?_lay h "body" hbody))

theorem item_covered : (Item inner).Covered WattFront.Item.outline := by
  intro tokens next i hitem
  cases hitem with
  | definition hdefined => exact defined_covered h "item" hdefined
  | imports _ himports =>
    exact covers_behind rfl (by simp) (imports_lay himports)
  | statement hstatement => exact statement_covered h "item" hstatement

/-- The outlines of the items of a program lie over its tokens. -/
theorem items_lay {goesOn : TokenKind → Bool} :
    (Many goesOn (Item inner)).Lays (·.map WattFront.Item.outline) :=
  many_lays (item_covered h)

end

end Spelling

end WattFront
