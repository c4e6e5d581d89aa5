import WattFront.Proofs.Grammar.ProgramForms
import WattFront.Proofs.Tree.Height
import WattFront.Tree.Equality

/-! # The limit on nesting bounds the height of trees

Each form of the grammar bounds the levels that the trees of its values open: an expression or a block inside a
construct has one level less left for its own parts. What only comes first in a tree is read by the construct
itself, so it opens no level, however often that is repeated. So a program opens as many levels on any path as there
is room for, while its trees can be as high as one likes (`Program.ofSource_outgrows_levels`).

* `Spelling.Inner.Nests` — bounds for the expressions and blocks inside a construct, with one lemma for each form;
* `Program.ofSource_levels` — the result.
-/

namespace WattFront

open Outline

def Form.Every {α : Type} (form : Form α) (P : α → Prop) : Prop :=
  ∀ ⦃tokens next a⦄, form tokens next a → P a

namespace Spelling

open Grammar

/-! ## Lists and clauses -/

section

variable {α : Type} {item : Form α} {P : α → Prop}

theorem many_every {goesOn : TokenKind → Bool} (h : item.Every P) :
    (Many goesOn item).Every fun as => ∀ a ∈ as, P a := by
  intro tokens next as hmany
  induction hmany with
  | nil => exact List.forall_mem_nil _
  | cons hitem _ ih => exact List.forall_mem_cons.2 ⟨h hitem, ih⟩

theorem separated_every (h : item.Every P) : (Separated item).Every fun as => ∀ a ∈ as, P a := by
  intro tokens next as hitems
  induction hitems with
  | one hitem => exact List.forall_mem_singleton.2 (h hitem)
  | more hitem _ _ ih => exact List.forall_mem_cons.2 ⟨h hitem, ih⟩

theorem bracketed_every {opening closing : TokenKind} (h : item.Every P) :
    (Bracketed opening closing item).Every fun as => ∀ a ∈ as, P a := by
  intro tokens next as hlist
  obtain ⟨-, hlist⟩ := hlist
  cases hlist with
  | nil => exact List.forall_mem_nil _
  | cons hitems => exact separated_every h hitems

theorem clause_every {opening : TokenKind} (h : item.Every P) :
    (Clause opening item).Every fun a? => ∀ a ∈ a?, P a := by
  intro tokens next a? hclause a ha
  cases hclause with
  | none => cases ha
  | some hitem =>
    cases ha
    exact h hitem

end

/-! ## Names and literals -/

section

variable {levels : Nat}

theorem leaf_nests (label : Label) : (node label []).Nests levels :=
  nests_node (List.forall_mem_nil _)

theorem ident_inside (role : String) (i : Ident) : (i.outline role).NestsInside levels :=
  (leaf_nests _).plain rfl

theorem idents_inside (role : String) (is : List Ident) : ∀ o ∈ is.map (Ident.outline role), o.NestsInside levels :=
  List.forall_mem_map.2 fun i _ => ident_inside role i

theorem literal_nests (role : String) : Literal.Every fun e => (e.outline role).Nests levels := by
  intro tokens next e hliteral
  cases hliteral <;> exact leaf_nests _

/-- An expression that comes first in what it is part of opens no level. -/
theorem expr_leading {role : String} {e : Expr} (h : (e.outline role).Nests levels)
    (hrole : role ∈ Label.leadingRoles) : (e.outline role).NestsInside levels := by
  refine h.leading ?_
  cases e <;> exact hrole

end

structure Inner.Nests (inner : Inner) (levels : Nat) : Prop where
  expr (role : String) (power : BindingPower) :
    (inner.expr power).Every fun e => (e.outline role).NestsInside levels
  block (role : String) : inner.block.Every fun b => (b.outline role).NestsInside levels

section

variable {inner : Inner} {levels : Nat} (h : inner.Nests levels)

include h

/-! ## Expressions -/

theorem exprs_inside {opening closing : TokenKind} (role : String) (power : BindingPower) :
    (Bracketed opening closing (inner.expr power)).Every
      fun es => ∀ o ∈ Expr.outlines role es, o.NestsInside levels := by
  intro tokens next es hlist
  rw [Expr.outlines_eq]
  exact List.forall_mem_map.2 (bracketed_every (h.expr role power) hlist)

theorem block?_inside {opening : TokenKind} (role : String) :
    (Clause opening inner.block).Every fun b? => ∀ o ∈ Block.outline? role b?, o.NestsInside levels := by
  intro tokens next b? hclause
  have hbody := clause_every (h.block role) hclause
  cases b? with
  | none => exact List.forall_mem_nil _
  | some b => exact List.forall_mem_singleton.2 (hbody b rfl)

/-- However long a chain is, only its arguments open levels. -/
theorem links_nests (role : String) : (Links inner).Every fun e => (e.outline role).Nests levels := by
  intro tokens next e hlinks
  induction hlinks generalizing role with
  | name => exact leaf_nests _
  | member _ _ _ ih =>
    have hobject := expr_leading (ih "object") (by decide)
    exact nests_node (List.forall_mem_cons.2 ⟨hobject, List.forall_mem_singleton.2 (ident_inside "property" _)⟩)
  | call _ harguments _ ih | propagate _ harguments _ ih =>
    have hcallee := expr_leading (ih "callee") (by decide)
    exact nests_node (List.forall_mem_cons.2 ⟨hcallee, exprs_inside h "argument" _ harguments⟩)

theorem chain_nests (role : String) : (Chain inner).Every fun e => (e.outline role).Nests levels := by
  intro tokens next e hchain
  obtain ⟨hlinks, -⟩ := hchain
  exact links_nests h role hlinks

theorem entry_inside : (Entry inner).Every fun p => p.outline.NestsInside levels := by
  intro tokens next p hentry
  obtain ⟨hkey, -, hvalue⟩ := hentry
  refine inside_node rfl (List.forall_mem_cons.2 ⟨?_, List.forall_mem_singleton.2 ?_⟩)
  · exact h.expr "key" _ hkey
  · exact h.expr "value" _ hvalue

theorem body_inside : (Body inner).Every fun b => b.outline.NestsInside levels := by
  intro tokens next b hbody
  cases hbody with
  | expr _ hvalue => exact h.expr "body" _ hvalue
  | block hblock => exact h.block "body" hblock

theorem case_inside (role : String) (keyword : TokenKind) :
    (Case inner keyword).Every fun a => (a.outline role).NestsInside levels := by
  intro tokens next a hcase
  obtain ⟨-, hpattern, hbody⟩ := hcase
  refine inside_node rfl (List.forall_mem_cons.2 ⟨?_, List.forall_mem_singleton.2 ?_⟩)
  · exact h.expr "pattern" _ hpattern
  · exact body_inside h hbody

theorem cases_inside {goesOn : TokenKind → Bool} :
    (Many goesOn (Case inner .kwCase)).Every fun arms => ∀ o ∈ Arm.outlines arms, o.NestsInside levels := by
  intro tokens next arms hmany
  rw [Arm.outlines_eq]
  exact List.forall_mem_map.2 (many_every (case_inside h "case" _) hmany)

theorem fallback_inside :
    (Clause .kwDefault (Case inner .kwDefault)).Every fun a? => ∀ o ∈ Arm.outline? a?, o.NestsInside levels := by
  intro tokens next a? hclause
  have harm := clause_every (case_inside h "default" _) hclause
  cases a? with
  | none => exact List.forall_mem_nil _
  | some a => exact List.forall_mem_singleton.2 (harm a rfl)

theorem operand_nests (role : String) : (Operand inner).Every fun e => (e.outline role).Nests levels := by
  intro tokens next e hoperand
  cases hoperand with
  | literal hliteral => exact literal_nests role hliteral
  | chain hchain => exact chain_nests h role hchain
  | list helements => exact nests_node (exprs_inside h "element" _ helements)
  | map hpairs =>
    refine nests_node ?_
    rw [Pair.outlines_eq]
    exact List.forall_mem_map.2 (bracketed_every (entry_inside h) hpairs)
  | negate _ hinner | not _ hinner => exact nests_node (List.forall_mem_singleton.2 (h.expr "operand" _ hinner))
  -- Parentheses open a level that no node stands for.
  | group _ hinner _ => exact (h.expr role _ hinner).nests
  | new _ _ harguments =>
    exact nests_node (List.forall_mem_cons.2 ⟨ident_inside "type" _, exprs_inside h "argument" _ harguments⟩)
  | choice _ hscrutinee hcases hfallback =>
    have harms := List.forall_mem_append.2 ⟨cases_inside h hcases, fallback_inside h hfallback⟩
    exact nests_node (List.forall_mem_cons.2 ⟨h.expr "scrutinee" _ hscrutinee, harms⟩)
  | lambda _ _ _ hbody =>
    have hvalue := List.forall_mem_singleton.2 (h.expr "body" _ hbody)
    exact nests_node (List.forall_mem_append.2 ⟨idents_inside "param" _, hvalue⟩)
  | function _ _ hbody =>
    have hblock := List.forall_mem_singleton.2 (h.block "body" hbody)
    exact nests_node (List.forall_mem_append.2 ⟨idents_inside "param" _, hblock⟩)

/-- However many operators stand in a row, only their right operands open levels. -/
theorem operated_nests (role : String) (power : BindingPower) :
    (Operated inner power).Every fun e => (e.outline role).Nests levels := by
  intro tokens next e hoperated
  induction hoperated generalizing role with
  | operand hoperand => exact operand_nests h role hoperand
  | binary _ _ _ hright ih =>
    have hleft := expr_leading (ih "left") (by decide)
    exact nests_node (List.forall_mem_cons.2 ⟨hleft, List.forall_mem_singleton.2 (h.expr "right" _ hright)⟩)

theorem expression_nests (role : String) (power : BindingPower) :
    (Expression inner power).Every fun e => (e.outline role).Nests levels := by
  intro tokens next e hexpression
  obtain ⟨hoperated, -⟩ := hexpression
  exact operated_nests h role power hoperated

/-! ## Statements -/

theorem elif_inside : (Elif inner).Every fun b => b.outline.NestsInside levels := by
  intro tokens next b helif
  obtain ⟨-, hcondition, hbody⟩ := helif
  refine inside_node rfl (List.forall_mem_cons.2 ⟨?_, List.forall_mem_singleton.2 ?_⟩)
  · exact h.expr "condition" _ hcondition
  · exact h.block "body" hbody

theorem elifs_inside {goesOn : TokenKind → Bool} :
    (Many goesOn (Elif inner)).Every fun branches => ∀ o ∈ Branch.outlines branches, o.NestsInside levels := by
  intro tokens next branches hmany
  rw [Branch.outlines_eq]
  exact List.forall_mem_map.2 (many_every (elif_inside h) hmany)

theorem otherwise_inside :
    (Clause .kwElse (Otherwise inner)).Every fun b? => ∀ o ∈ Block.outline? "else" b?, o.NestsInside levels := by
  intro tokens next b? hclause
  have hotherwise : (Otherwise inner).Every fun b => (b.outline "else").NestsInside levels := by
    intro tokens next b hotherwise
    obtain ⟨-, hbody⟩ := hotherwise
    exact h.block "else" hbody
  have hbody := clause_every hotherwise hclause
  cases b? with
  | none => exact List.forall_mem_nil _
  | some b => exact List.forall_mem_singleton.2 (hbody b rfl)

theorem named_inside (role : String) : (Named inner).Every fun f => (f.outline role).NestsInside levels := by
  intro tokens next f hnamed
  obtain ⟨-, -, -, hbody⟩ := hnamed
  exact inside_node rfl (List.forall_mem_cons.2 ⟨ident_inside "name" _,
    List.forall_mem_append.2 ⟨idents_inside "param" _, block?_inside h "body" hbody⟩⟩)

theorem statement_inside (role : String) : (Statement inner).Every fun s => (s.outline role).NestsInside levels := by
  intro tokens next s hstatement
  cases hstatement with
  | define htarget _ hvalue | assign htarget _ hvalue =>
    have hchain := expr_leading (chain_nests h "target" htarget) (by decide)
    exact inside_node rfl
      (List.forall_mem_cons.2 ⟨hchain, List.forall_mem_singleton.2 (h.expr "value" _ hvalue)⟩)
  | expression hchain =>
    have hvalue := chain_nests h "value" hchain
    refine Nests.plain (.node (List.forall_mem_singleton.2 (hvalue.same ?_))) rfl
    simp [Label.opens]
  | returnValue _ hvalue => exact inside_node rfl (List.forall_mem_singleton.2 (h.expr "value" _ hvalue))
  | whileLoop _ hcondition hbody =>
    have hblock := List.forall_mem_singleton.2 (h.block "body" hbody)
    exact inside_node rfl (List.forall_mem_cons.2 ⟨h.expr "condition" _ hcondition, hblock⟩)
  | conditional _ hcondition hbody helifs hotherwise =>
    have hothers := List.forall_mem_append.2 ⟨elifs_inside h helifs, otherwise_inside h hotherwise⟩
    exact inside_node rfl (List.forall_mem_cons.2
      ⟨h.expr "condition" _ hcondition, List.forall_mem_cons.2 ⟨h.block "then" hbody, hothers⟩⟩)
  | forLoop _ _ _ hiterable hbody =>
    have hblock := List.forall_mem_singleton.2 (h.block "body" hbody)
    exact inside_node rfl (List.forall_mem_cons.2
      ⟨ident_inside "variable" _, List.forall_mem_cons.2 ⟨h.expr "iterable" _ hiterable, hblock⟩⟩)
  | breakLoop | continueLoop => exact (leaf_nests _).plain rfl
  | native => exact inside_node rfl (List.forall_mem_singleton.2 (ident_inside "name" _))
  | function hnamed => exact inside_node rfl (List.forall_mem_singleton.2 (named_inside h "function" hnamed))

theorem braced_nests (role : String) : (Braced inner).Every fun b => (b.outline role).Nests levels := by
  intro tokens next b hbraced
  obtain ⟨-, hstatements, -⟩ := hbraced
  refine nests_node ?_
  rw [Stmt.outlines_eq]
  exact List.forall_mem_map.2 (many_every (statement_inside h "stmt") hstatements)

end

/-- Expressions and blocks that are spelled with some levels open no more of them under any parent. -/
theorem upTo_nests (levels : Nat) : (upTo levels).Nests levels := by
  induction levels with
  | zero => exact ⟨fun _ _ _ _ _ hform => hform.elim, fun _ _ _ _ hform => hform.elim⟩
  | succ levels ih =>
    exact ⟨fun role power _ _ _ he => (expression_nests ih role power he).inside,
      fun role _ _ _ hb => (braced_nests ih role hb).inside⟩

/-! ## Items -/

section

variable {inner : Inner} {levels : Nat} (h : inner.Nests levels)

include h

theorem defined_inside (role : String) : (Defined inner).Every fun d => (d.outline role).NestsInside levels := by
  intro tokens next d hdefined
  cases hdefined with
  | function hnamed => exact named_inside h role hnamed
  | trait _ _ _ hmethods _ =>
    have hfunctions := List.forall_mem_map.2 (many_every (named_inside h "method") hmethods)
    exact inside_node rfl (List.forall_mem_cons.2 ⟨ident_inside "name" _, hfunctions⟩)
  | type _ _ _ _ hbody =>
    have hblock := block?_inside h "body" hbody
    exact inside_node rfl (List.forall_mem_cons.2 ⟨ident_inside "name" _,
      List.forall_mem_append.2 ⟨List.forall_mem_append.2 ⟨idents_inside "param" _, idents_inside "trait" _⟩, hblock⟩⟩)
  | unit _ _ hbody =>
    exact inside_node rfl (List.forall_mem_cons.2 ⟨ident_inside "name" _, block?_inside h "body" hbody⟩)

theorem item_inside : (Item inner).Every fun i => i.outline.NestsInside levels := by
  intro tokens next i hitem
  cases hitem with
  | definition hdefined => exact defined_inside h "item" hdefined
  | imports _ himports =>
    exact inside_node rfl (List.forall_mem_map.2 fun i _ => inside_node rfl (idents_inside "alias" _))
  | statement hstatement => exact statement_inside h "item" hstatement

end

end Spelling

/-! ## Programs -/

variable {source : List Char} {file : String} {p : Program}

/-- On no path through a program that has been read do more than 128 nodes open a level. -/
theorem Program.ofSource_levels (h : ofSource source file = .ok p) :
    ∀ labels ∈ p.outline.paths, levelsOn labels ≤ 128 := by
  obtain ⟨tokens, -, hread⟩ := ofSource_eq_ok_iff.1 h
  have hitems := Spelling.many_every (Spelling.item_inside (Spelling.upTo_nests maxNesting))
    (ofTokens_eq_ok_iff.1 hread).items
  have hprogram : p.outline.Nests maxNesting := nests_node (List.forall_mem_map.2 hitems)
  exact hprogram

/-- The left operand of a sum opens no level, and the right one opens one. -/
theorem Program.ofSource_levels_of_sum :
    let number (value : Int) (offset : Nat) : Expr := .number value ⟨.atByte offset "a", .atByte (offset + 1) "a"⟩
    let p : Program := ⟨[.statement (.define (.symbol "x" ⟨.atByte 0 "a", .atByte 1 "a"⟩)
      (.binary .plus (number 1 3) (number 2 5) ⟨.atByte 3 "a", .atByte 6 "a"⟩) ⟨.atByte 0 "a", .atByte 6 "a"⟩)],
      ⟨.origin "a", .atByte 6 "a"⟩⟩
    ofSource ['x', ':', '=', '1', '+', '2'] "a" = .ok p ∧ p.outline.paths.map levelsOn = [0, 1, 2]
      ∧ ∀ labels ∈ p.outline.paths, levelsOn labels ≤ 128 := by
  intro number p
  have hread : ofSource ['x', ':', '=', '1', '+', '2'] "a" = .ok p := by decide +kernel
  exact ⟨hread, by decide, Program.ofSource_levels hread⟩

/-! ## Trees that are higher than the limit -/

theorem Program.exists_high_path
    (h : (ofSource source file).toOption.any (fun p => p.outline.paths.any
      fun labels => decide (128 < labels.countP Label.isNested)) = true) :
    ∃ p, ofSource source file = .ok p ∧ ∃ labels ∈ p.outline.paths, 128 < labels.countP Label.isNested := by
  cases hread : ofSource source file with
  | error f =>
    rw [hread] at h
    cases h
  | ok p =>
    rw [hread] at h
    obtain ⟨labels, hpath, hhigh⟩ := List.any_eq_true.1 h
    exact ⟨p, rfl, labels, hpath, of_decide_eq_true hhigh⟩

/-- More than 128 expressions and blocks can stand on one path through a program: in a row of operators, of
properties or of calls, and with the chain of a statement in as many brackets and blocks as there is room for. -/
theorem Program.ofSource_outgrows_levels :
    let row (count : Nat) (text : List Char) : List Char := (List.replicate count text).flatten
    let inBrackets (count : Nat) (statement : List Char) : List Char :=
      ['x', ':', '='] ++ row count ['['] ++ ['f', 'n', '(', ')', '\x7b'] ++ statement ++ ['\x7d'] ++ row count [']']
    let operators := ['x', ':', '='] ++ row 128 ['1', '+'] ++ ['1']
    let properties := ['x', ':', '=', 'a'] ++ row 128 ['.', 'b']
    let calls := ['x', ':', '=', 'a'] ++ row 128 ['(', ')']
    let bareChain := inBrackets 126 ['x']
    let target := inBrackets 125 ['f', '(', 'x', ')', ':', '=', '1']
    ∀ source ∈ [operators, properties, calls, bareChain, target], ∃ p, ofSource source "a" = .ok p
      ∧ ∃ labels ∈ p.outline.paths, 128 < labels.countP Label.isNested := by
  intro row inBrackets operators properties calls bareChain target
  simp only [List.forall_mem_cons]
  refine ⟨?_, ?_, ?_, ?_, ?_, List.forall_mem_nil _⟩
  all_goals exact Program.exists_high_path (by decide +kernel)

end WattFront
