import WattFront.Proofs.Grammar.Boundary
import WattFront.Proofs.Grammar.Parentheses
import WattFront.Proofs.Tree.Covering
import WattFront.Proofs.Tree.Expressions

/-! # The tokens of an expression in a tree

Parentheses around an expression leave no trace in the tree. So the tokens of an expression of a tree are those
without the parentheses around all of it (`Spelling.Ungrouped`), and they stand somewhere in the tokens of whatever the
expression is part of (`Spelling.Owned`).

The span of an operator goes from the span of its left operand to that of its right one. If one of these is a group, the
span cuts through its parentheses, and what is under the span has a parenthesis too many. Otherwise, it is the span of
the tokens of the expression: `Spelling.SpansBare.eq_of_balanced`.

* `Spelling.Ungrouped.span` — the tokens under the span of an expression;
* `Spelling.Owns` — what a form says about the expressions of its values, with one lemma for each form;
* `Spelling.upTo_owns` — the result for expressions and blocks;
* `Spelling.item_owns` — the result for items.
-/

namespace WattFront.Spelling

open Grammar

/-- An expression that does not stand in parentheses as a whole. -/
inductive Ungrouped (inner : Inner) : Form Expr
  | operand {tokens next e} (h : Operand inner tokens next e) (hspan : e.span = .cover tokens) :
    Ungrouped inner tokens next e
  | binary {tokens operator others next left right op} (hleft : Operated inner .lowest tokens operator left)
    (htight : bindsTighter .lowest operator.kind = true) (hop : BinaryOp.ofToken? operator.kind = some op)
    (hright : inner.expr op.bindingPower others next right) :
    Ungrouped inner (tokens ++ operator :: others) next (.binary op left right (left.span.through right.span))

variable {tokens others : List Token} {next first close t : Token} {s s' : Span} {e x : Expr} {inner outer : Inner}

/-! ## Spans of groups -/

/-- A span reaches over some of the tokens of an expression. In front of it there are parentheses that are closed among
the tokens from there on, and behind it there are some that close others. -/
def SpansGrouped (tokens : List Token) (s : Span) : Prop :=
  ∃ lead core tail, tokens = lead ++ (core ++ tail) ∧ core ≠ [] ∧ s = .cover core
    ∧ (lead ≠ [] → openParens 0 (core ++ tail) = none)
    ∧ (tail ≠ [] → ∃ count, openParens 0 (lead ++ core) = some (count + 1))

/-- A span reaches over some of the tokens of an expression that does not stand in parentheses as a whole: those in
front of the span are closed under it. -/
def SpansBare (tokens : List Token) (s : Span) : Prop :=
  ∃ lead core tail, tokens = lead ++ (core ++ tail) ∧ core ≠ [] ∧ s = .cover core
    ∧ (lead ≠ [] → openParens 0 core = none)
    ∧ (tail ≠ [] → ∃ count, openParens 0 (lead ++ core) = some (count + 1))

theorem SpansBare.self (hne : tokens ≠ []) (hspan : s = .cover tokens) : SpansBare tokens s :=
  ⟨[], tokens, [], (List.append_nil _).symm, hne, hspan, fun h => absurd rfl h, fun h => absurd rfl h⟩

theorem SpansBare.grouped (h : SpansBare tokens s) : SpansGrouped tokens s := by
  obtain ⟨lead, core, tail, rfl, hne, hspan, hlead, htail⟩ := h
  refine ⟨lead, core, tail, rfl, hne, hspan, fun hsome => ?_, htail⟩
  rw [openParens_append, hlead hsome]
  rfl

/-- Parentheses around all tokens: they are not under the span. -/
theorem SpansGrouped.group (h : SpansGrouped tokens s) (hbalanced : Balanced tokens)
    (hopen : first.kind = .openParen) (hclose : close.kind = .closeParen) :
    SpansGrouped (first :: (tokens ++ [close])) s := by
  obtain ⟨lead, core, tail, rfl, hne, hspan, hlead, htail⟩ := h
  refine ⟨first :: lead, core, tail ++ [close], by simp, hne, hspan, fun _ => ?_, fun _ => ?_⟩
  · rw [← List.append_assoc, openParens_append]
    by_cases hempty : lead = []
    · subst hempty
      rw [List.nil_append] at hbalanced
      rw [hbalanced.openParens_eq, Option.bind_some, openParens_cons, hclose]
      rfl
    · rw [hlead hempty]
      rfl
  · rw [List.cons_append, openParens_open hopen]
    by_cases hempty : tail = []
    · subst hempty
      rw [List.append_nil] at hbalanced
      exact ⟨0, hbalanced.openParens_eq 1⟩
    · obtain ⟨count, hcount⟩ := htail hempty
      exact ⟨count + 1, by rw [Nat.add_comm 0 1, Nat.add_comm 1 0, openParens_add hcount 1]⟩

/-- An operator between its operands, each of which may be a group. -/
theorem SpansGrouped.through (h : SpansGrouped tokens s) (h' : SpansGrouped others s') (hbalanced : Balanced tokens)
    (hplain : t.kind.isParen = false) : SpansBare (tokens ++ t :: others) (s.through s') := by
  obtain ⟨lead, core, tail, rfl, hne, rfl, hlead, -⟩ := h
  obtain ⟨lead', core', tail', rfl, hne', rfl, -, htail⟩ := h'
  refine ⟨lead, core ++ ((tail ++ t :: lead') ++ core'), tail', by simp, by simp [hne], ?_, fun hsome => ?_,
    fun hsome => ?_⟩
  · exact Span.through_cover hne hne' _
  · rw [← List.append_assoc, ← List.append_assoc, List.append_assoc, openParens_append, hlead hsome]
    rfl
  · obtain ⟨count, hcount⟩ := htail hsome
    have hsplit : lead ++ (core ++ ((tail ++ t :: lead') ++ core'))
        = (lead ++ (core ++ tail)) ++ t :: (lead' ++ core') := by simp
    exact ⟨count, by rw [hsplit, hbalanced.openParens_append, openParens_plain hplain, hcount]⟩

theorem SpansBare.eq_of_balanced (h : SpansBare tokens s) :
    ∃ lead core tail, tokens = lead ++ (core ++ tail) ∧ core ≠ [] ∧ s = .cover core
      ∧ (Balanced core → lead = [] ∧ tail = []) := by
  obtain ⟨lead, core, tail, rfl, hne, hspan, hlead, htail⟩ := h
  refine ⟨lead, core, tail, rfl, hne, hspan, fun hbalanced => ?_⟩
  have hnone : lead = [] := by
    by_cases hempty : lead = []
    · exact hempty
    · rw [hbalanced.openParens_eq] at hlead
      cases hlead hempty
  subst hnone
  refine ⟨rfl, ?_⟩
  by_cases hempty : tail = []
  · exact hempty
  · obtain ⟨count, hcount⟩ := htail hempty
    rw [List.nil_append, hbalanced.openParens_eq] at hcount
    cases hcount

def Inner.Spans (inner : Inner) : Prop :=
  ∀ ⦃power tokens next e⦄, inner.expr power tokens next e → SpansGrouped tokens e.span

theorem links_span (h : Links inner tokens next e) : e.span = .cover tokens := by
  cases h <;> rfl

/-- An operand has the span of its tokens, or it is a group. -/
theorem operand_span (h : Operand inner tokens next e) :
    e.span = .cover tokens
      ∨ ∃ first inside close, tokens = first :: (inside ++ [close]) ∧ first.kind = .openParen
        ∧ close.kind = .closeParen ∧ inner.expr .lowest inside close e := by
  cases h with
  | literal hliteral =>
    left
    cases hliteral <;> rfl
  | chain hchain =>
    obtain ⟨hlinks, -⟩ := hchain
    exact .inl (links_span hlinks)
  | group hfirst hinner hclose => exact .inr ⟨_, _, _, rfl, hfirst, hclose, hinner⟩
  | _ => exact .inl rfl

theorem operand_ne_nil (h : Operand inner tokens next e) : tokens ≠ [] := by
  obtain ⟨first, others, rfl, -⟩ := operand_opens h
  exact List.cons_ne_nil _ _

section

variable (hspans : inner.Spans) (hbalances : inner.Balances)

include hspans hbalances

theorem operand_spans (h : Operand inner tokens next e) : SpansGrouped tokens e.span := by
  rcases operand_span h with hspan | ⟨first, inside, close, rfl, hfirst, hclose, hinner⟩
  · exact (SpansBare.self (operand_ne_nil h) hspan).grouped
  · -- The span is that of what is inside, which may be a group again.
    exact (hspans hinner).group (hbalances.expr _ hinner) hfirst hclose

theorem operated_spans {power : BindingPower} (h : Operated inner power tokens next e) :
    SpansGrouped tokens e.span := by
  induction h with
  | operand hoperand => exact operand_spans hspans hbalances hoperand
  | binary hleft _ hop hright ih =>
    exact (ih.through (hspans hright) (operated_balances hbalances _ hleft) (BinaryOp.isParen_of_ofToken? hop)).grouped

end

theorem upTo_spans (levels : Nat) : (upTo levels).Spans := by
  induction levels with
  | zero => exact fun _ _ _ _ hform => hform.elim
  | succ levels ih =>
    intro power tokens next e hexpression
    obtain ⟨hoperated, -⟩ := hexpression
    exact operated_spans ih (upTo_balances levels) hoperated

/-! ## Expressions without the parentheses around them -/

theorem bindsTighter_lowest {power : BindingPower} {kind : TokenKind} (h : bindsTighter power kind = true) :
    bindsTighter .lowest kind = true := by
  have hrank : BindingPower.lowest.rank = 0 := rfl
  simp only [bindsTighter, decide_eq_true_eq, hrank] at h ⊢
  omega

/-- What is read at some power could be read at the lowest one. -/
theorem operated_lowest {power : BindingPower} (h : Operated inner power tokens next e) :
    Operated inner .lowest tokens next e := by
  induction h with
  | operand hoperand => exact .operand hoperand
  | binary _ htight hop hright ih => exact .binary ih (bindsTighter_lowest htight) hop hright

theorem Ungrouped.operated (h : Ungrouped inner tokens next e) : Operated inner .lowest tokens next e := by
  cases h with
  | operand hoperand => exact .operand hoperand
  | binary hleft htight hop hright => exact .binary hleft htight hop hright

theorem Ungrouped.mono (hwithin : inner.Within outer) (h : Ungrouped inner tokens next e) :
    Ungrouped outer tokens next e := by
  cases h with
  | operand hoperand hspan => exact .operand (Operand.mono hwithin _ _ _ hoperand) hspan
  | binary hleft htight hop hright =>
    exact .binary (Operated.mono hwithin _ _ _ _ hleft) htight hop (hwithin.expr _ _ _ _ hright)

/-- The span of such an expression cuts through parentheses, or it reaches over all of its tokens. If the expression is
no operator, it always does. -/
theorem Ungrouped.span {levels : Nat} (h : Ungrouped (upTo levels) tokens next e) :
    ∃ lead core tail, tokens = lead ++ (core ++ tail) ∧ core ≠ [] ∧ e.span = .cover core
      ∧ (Balanced core → lead = [] ∧ tail = []) ∧ (e.isBinary = false → Balanced core) := by
  cases h with
  | operand hoperand hspan =>
    refine ⟨[], tokens, [], (List.append_nil _).symm, operand_ne_nil hoperand, hspan, fun _ => ⟨rfl, rfl⟩, fun _ => ?_⟩
    exact operand_balances (upTo_balances levels) hoperand
  | binary hleft htight hop hright =>
    have hbalances := upTo_balances levels
    have hspans := (operated_spans (upTo_spans levels) hbalances hleft).through (upTo_spans levels hright)
      (operated_balances hbalances _ hleft) (BinaryOp.isParen_of_ofToken? hop)
    obtain ⟨lead, core, tail, htokens, hne, hspan, hcore⟩ := hspans.eq_of_balanced
    exact ⟨lead, core, tail, htokens, hne, hspan, hcore, nofun⟩

/-! ## Tokens of an expression among others -/

/-- The tokens of an expression stand among those of what it is part of. -/
def Owned (inner : Inner) (tokens : List Token) (x : Expr) : Prop :=
  ∃ front own back next, tokens = front ++ (own ++ back) ∧ Ungrouped inner own next x

def OwnsAll (inner : Inner) (tokens : List Token) (xs : List Expr) : Prop :=
  ∀ x ∈ xs, Owned inner tokens x

theorem Ungrouped.owned (h : Ungrouped inner tokens next x) : Owned inner tokens x :=
  ⟨[], tokens, [], next, (List.append_nil _).symm, h⟩

theorem Owned.within (h : Owned inner tokens x) (lead tail : List Token) :
    Owned inner (lead ++ (tokens ++ tail)) x := by
  obtain ⟨front, own, back, next, rfl, hown⟩ := h
  exact ⟨lead ++ front, own, back ++ tail, next, by simp, hown⟩

theorem Owned.append_right (h : Owned inner tokens x) (tail : List Token) : Owned inner (tokens ++ tail) x := by
  simpa using h.within [] tail

theorem Owned.mono (hwithin : inner.Within outer) (h : Owned inner tokens x) : Owned outer tokens x := by
  obtain ⟨front, own, back, next, rfl, hown⟩ := h
  exact ⟨front, own, back, next, rfl, hown.mono hwithin⟩

namespace OwnsAll

variable {xs ys : List Expr}

theorem nil : OwnsAll inner tokens [] :=
  List.forall_mem_nil _

theorem within (h : OwnsAll inner tokens xs) (lead tail : List Token) :
    OwnsAll inner (lead ++ (tokens ++ tail)) xs :=
  fun x hx => (h x hx).within lead tail

theorem append_left (h : OwnsAll inner tokens xs) (lead : List Token) : OwnsAll inner (lead ++ tokens) xs := by
  simpa using h.within lead []

theorem append_right (h : OwnsAll inner tokens xs) (tail : List Token) : OwnsAll inner (tokens ++ tail) xs := by
  simpa using h.within [] tail

/-- One more token in front, such as a keyword. -/
theorem behind (h : OwnsAll inner tokens xs) (token : Token) : OwnsAll inner (token :: tokens) xs :=
  h.append_left [token]

theorem append (h : OwnsAll inner tokens xs) (h' : OwnsAll inner others ys) :
    OwnsAll inner (tokens ++ others) (xs ++ ys) :=
  List.forall_mem_append.2 ⟨h.append_right others, h'.append_left tokens⟩

end OwnsAll

/-- The expressions of a value have tokens of their own among those of the value. -/
def Owns {α : Type} (form : Form α) (outer : Inner) (expressions : α → List Expr) : Prop :=
  ∀ ⦃tokens next a⦄, form tokens next a → OwnsAll outer tokens (expressions a)

/-! ## Lists and clauses -/

section

variable {α : Type} {item : Form α} {expressions : α → List Expr}

theorem many_owns {goesOn : TokenKind → Bool} (h : Owns item outer expressions) :
    Owns (Many goesOn item) outer (·.flatMap expressions) := by
  intro tokens next as hmany
  induction hmany with
  | nil => exact .nil
  | cons hitem _ ih => exact (h hitem).append ih

theorem separated_owns (h : Owns item outer expressions) : Owns (Separated item) outer (·.flatMap expressions) := by
  intro tokens next as hitems
  induction hitems with
  | one hitem => simpa using h hitem
  | more hitem _ _ ih => exact (h hitem).append (ih.behind _)

theorem bracketed_owns {opening closing : TokenKind} (h : Owns item outer expressions) :
    Owns (Bracketed opening closing item) outer (·.flatMap expressions) := by
  intro tokens next as hlist
  obtain ⟨-, hlist⟩ := hlist
  cases hlist with
  | nil => exact .nil
  | cons hitems => exact ((separated_owns h hitems).append_right _).behind _

theorem clause_owns {opening : TokenKind} (h : Owns item outer expressions) :
    Owns (Clause opening item) outer (·.elim [] expressions) := by
  intro tokens next a? hclause
  cases hclause with
  | none => exact .nil
  | some hitem => exact h hitem

end

structure Inner.Owns (inner outer : Inner) : Prop where
  expr (power : BindingPower) : Spelling.Owns (inner.expr power) outer Expr.expressions
  block : Spelling.Owns inner.block outer Block.expressions

section

variable (h : inner.Owns outer)

include h

/-! ## Expressions -/

theorem exprs_own {opening closing : TokenKind} (power : BindingPower) :
    Owns (Bracketed opening closing (inner.expr power)) outer Expr.allExpressions := by
  intro tokens next es hlist
  rw [Expr.allExpressions_eq]
  exact bracketed_owns (h.expr power) hlist

theorem block?_owns {opening : TokenKind} : Owns (Clause opening inner.block) outer Block.expressions? := by
  intro tokens next body? hclause
  have howns := clause_owns h.block hclause
  cases body? <;> exact howns

omit h in
/-- Wherever a chain goes on, what it starts with is a chain. -/
theorem links_owned (hlinks : Links inner tokens next e) : Owned inner tokens e := by
  -- A chain ends where nothing goes on with it, so the end of input is put behind it.
  have hstop : opensLink (Token.endOfInput default).kind = false := rfl
  have hchain : Chain inner tokens (.endOfInput default) e := .intro (hlinks.inFront (by decide)) hstop
  exact Ungrouped.owned (.operand (.chain hchain) (links_span hlinks))

omit h in
/-- Each link of a chain has tokens of its own, at the front of the chain. -/
theorem links_own_links (hlinks : Links inner tokens next e) : OwnsAll inner tokens e.links := by
  have hself := links_owned hlinks
  induction hlinks with
  | name => exact List.forall_mem_singleton.2 hself
  | member hobject _ _ ih => exact List.forall_mem_cons.2 ⟨hself, (ih (links_owned hobject)).append_right _⟩
  | call hcallee _ _ ih | propagate hcallee _ _ ih =>
    exact List.forall_mem_cons.2 ⟨hself, (ih (links_owned hcallee)).append_right _⟩

/-- What else there is in a chain is inside of its arguments. -/
theorem links_own_rest (hlinks : Links inner tokens next e) :
    ∀ x ∈ e.expressions, x ∈ e.links ∨ Owned outer tokens x := by
  induction hlinks with
  | name => exact List.forall_mem_singleton.2 (.inl List.mem_cons_self)
  | member _ _ _ ih =>
    refine List.forall_mem_cons.2 ⟨.inl List.mem_cons_self, fun x hx => ?_⟩
    exact (ih x hx).imp (List.mem_cons_of_mem _) fun howned => howned.append_right _
  | call _ harguments _ ih =>
    refine List.forall_mem_cons.2 ⟨.inl List.mem_cons_self, List.forall_mem_append.2 ⟨fun x hx => ?_, fun x hx => ?_⟩⟩
    · exact (ih x hx).imp (List.mem_cons_of_mem _) fun howned => howned.append_right _
    · exact .inr ((exprs_own h _ harguments).append_left _ x hx)
  | propagate _ harguments _ ih =>
    refine List.forall_mem_cons.2 ⟨.inl List.mem_cons_self, List.forall_mem_append.2 ⟨fun x hx => ?_, fun x hx => ?_⟩⟩
    · exact (ih x hx).imp (List.mem_cons_of_mem _) fun howned => howned.append_right _
    · exact .inr (((exprs_own h _ harguments).append_right _).append_left _ x hx)

theorem entry_owns : Owns (Entry inner) outer Pair.expressions := by
  intro tokens next p hentry
  obtain ⟨hkey, -, hvalue⟩ := hentry
  exact (h.expr _ hkey).append ((h.expr _ hvalue).behind _)

theorem body_owns : Owns (Body inner) outer ArmBody.expressions := by
  intro tokens next b hbody
  cases hbody with
  | expr _ hvalue => exact (h.expr _ hvalue).behind _
  | block hblock => exact h.block hblock

theorem case_owns (keyword : TokenKind) : Owns (Case inner keyword) outer Arm.expressions := by
  intro tokens next a hcase
  obtain ⟨-, hpattern, hbody⟩ := hcase
  exact ((h.expr _ hpattern).append (body_owns h hbody)).behind _

theorem cases_own {goesOn : TokenKind → Bool} : Owns (Many goesOn (Case inner .kwCase)) outer Arm.allExpressions := by
  intro tokens next arms hmany
  rw [Arm.allExpressions_eq]
  exact many_owns (case_owns h _) hmany

theorem fallback_owns : Owns (Clause .kwDefault (Case inner .kwDefault)) outer Arm.expressions? := by
  intro tokens next arm? hclause
  have howns := clause_owns (case_owns h _) hclause
  cases arm? <;> exact howns

end

section

variable (h : inner.Owns inner)

include h

theorem chain_owns : Owns (Chain inner) inner Expr.expressions := by
  intro tokens next e hchain x hx
  obtain ⟨hlinks, -⟩ := hchain
  exact (links_own_rest h hlinks x hx).elim (links_own_links hlinks x) id

/-- An operand that is no group has tokens of its own, in which those of its parts stand. -/
theorem operand_owns : Owns (Operand inner) inner Expr.expressions := by
  intro tokens next e hoperand
  have hself (hspan : e.span = .cover tokens) : Owned inner tokens e := Ungrouped.owned (.operand hoperand hspan)
  cases hoperand with
  | literal hliteral => cases hliteral <;> exact List.forall_mem_singleton.2 (hself rfl)
  | chain hchain => exact chain_owns h hchain
  | list helements => exact List.forall_mem_cons.2 ⟨hself rfl, exprs_own h _ helements⟩
  | map hpairs =>
    refine List.forall_mem_cons.2 ⟨hself rfl, ?_⟩
    rw [Pair.allExpressions_eq]
    exact bracketed_owns (entry_owns h) hpairs
  | negate _ hinner | not _ hinner => exact List.forall_mem_cons.2 ⟨hself rfl, (h.expr _ hinner).behind _⟩
  | group _ hinner _ => exact ((h.expr _ hinner).append_right _).behind _
  | new _ _ harguments =>
    exact List.forall_mem_cons.2 ⟨hself rfl, ((exprs_own h _ harguments).behind _).behind _⟩
  | choice _ hscrutinee hcases hfallback =>
    have harms := (cases_own h hcases).append (fallback_owns h hfallback)
    exact List.forall_mem_cons.2 ⟨hself rfl, ((h.expr _ hscrutinee).append harms).behind _⟩
  | lambda _ _ _ hbody =>
    exact List.forall_mem_cons.2 ⟨hself rfl, (((h.expr _ hbody).behind _).append_left _).behind _⟩
  | function _ _ hbody =>
    exact List.forall_mem_cons.2 ⟨hself rfl, ((h.block hbody).append_left _).behind _⟩

theorem operated_owns (power : BindingPower) : Owns (Operated inner power) inner Expr.expressions := by
  intro tokens next e hoperated
  induction hoperated with
  | operand hoperand => exact operand_owns h hoperand
  | binary hleft htight hop hright ih =>
    have hself := Ungrouped.owned (.binary (operated_lowest hleft) (bindsTighter_lowest htight) hop hright)
    exact List.forall_mem_cons.2 ⟨hself, ih.append ((h.expr _ hright).behind _)⟩

theorem expression_owns (power : BindingPower) : Owns (Expression inner power) inner Expr.expressions := by
  intro tokens next e hexpression
  obtain ⟨hoperated, -⟩ := hexpression
  exact operated_owns h power hoperated

end

/-! ## Statements -/

section

variable (h : inner.Owns outer)

include h

theorem elif_owns : Owns (Elif inner) outer Branch.expressions := by
  intro tokens next b helif
  obtain ⟨-, hcondition, hbody⟩ := helif
  exact ((h.expr _ hcondition).append (h.block hbody)).behind _

theorem elifs_own {goesOn : TokenKind → Bool} : Owns (Many goesOn (Elif inner)) outer Branch.allExpressions := by
  intro tokens next branches hmany
  rw [Branch.allExpressions_eq]
  exact many_owns (elif_owns h) hmany

theorem otherwise_owns : Owns (Clause .kwElse (Otherwise inner)) outer Block.expressions? := by
  intro tokens next body? hclause
  have hotherwise : Owns (Otherwise inner) outer Block.expressions := by
    intro tokens next body hotherwise
    obtain ⟨-, hbody⟩ := hotherwise
    exact (h.block hbody).behind _
  have howns := clause_owns hotherwise hclause
  cases body? <;> exact howns

theorem named_owns : Owns (Named inner) outer Function.expressions := by
  intro tokens next f hnamed
  obtain ⟨-, -, -, hbody⟩ := hnamed
  exact (((block?_owns h hbody).append_left _).behind _).behind _

omit h in
theorem statement_owns_leading {s : Stmt} (hstatement : Statement inner tokens next s) :
    OwnsAll inner tokens s.leadingLinks := by
  cases hstatement with
  | define htarget _ _ | assign htarget _ _ =>
    obtain ⟨hlinks, -⟩ := htarget
    exact (links_own_links hlinks).append_right _
  | expression hchain =>
    obtain ⟨hlinks, -⟩ := hchain
    exact links_own_links hlinks
  | _ => exact .nil

/-- Apart from the links of the chain that a statement starts with, its expressions are inside of others. -/
theorem statement_owns_rest {s : Stmt} (hstatement : Statement inner tokens next s) :
    ∀ x ∈ s.expressions, x ∈ s.leadingLinks ∨ Owned outer tokens x := by
  cases hstatement with
  | define htarget _ hvalue | assign htarget _ hvalue =>
    obtain ⟨hlinks, -⟩ := htarget
    refine List.forall_mem_append.2 ⟨fun x hx => ?_, fun x hx => ?_⟩
    · exact (links_own_rest h hlinks x hx).imp_right fun howned => howned.append_right _
    · exact .inr (((h.expr _ hvalue).behind _).append_left _ x hx)
  | expression hchain =>
    obtain ⟨hlinks, -⟩ := hchain
    exact links_own_rest h hlinks
  | returnValue _ hvalue => exact fun x hx => .inr ((h.expr _ hvalue).behind _ x hx)
  | whileLoop _ hcondition hbody =>
    exact fun x hx => .inr (((h.expr _ hcondition).append (h.block hbody)).behind _ x hx)
  | conditional _ hcondition hbody helifs hotherwise =>
    have hothers := (elifs_own h helifs).append (otherwise_owns h hotherwise)
    exact fun x hx => .inr (((h.expr _ hcondition).append ((h.block hbody).append hothers)).behind _ x hx)
  | forLoop _ _ _ hiterable hbody =>
    have hparts := (h.expr _ hiterable).append (h.block hbody)
    exact fun x hx => .inr (((hparts.behind _).behind _).behind _ x hx)
  | breakLoop | continueLoop | native => exact List.forall_mem_nil _
  | function hnamed => exact fun x hx => .inr (named_owns h hnamed x hx)

end

section

variable (h : inner.Owns inner)

include h

theorem statement_owns : Owns (Statement inner) inner Stmt.expressions := by
  intro tokens next s hstatement x hx
  exact (statement_owns_rest h hstatement x hx).elim (statement_owns_leading hstatement x) id

theorem braced_owns : Owns (Braced inner) inner Block.expressions := by
  intro tokens next b hbraced
  obtain ⟨-, hstatements, -⟩ := hbraced
  refine OwnsAll.behind ?_ _
  rw [Block.expressions, Stmt.allExpressions_eq]
  exact (many_owns (statement_owns h) hstatements).append_right _

end

theorem Owns.mono {α : Type} {form : Form α} {expressions : α → List Expr} (hwithin : inner.Within outer)
    (h : Owns form inner expressions) : Owns form outer expressions :=
  fun _ _ _ hform x hx => (h hform x hx).mono hwithin

/-- An expression or a block opens a level, so the expressions inside it have one level less for their own parts. -/
theorem upTo_owns (levels : Nat) : (upTo (levels + 1)).Owns (upTo levels) := by
  -- By induction on the levels: a part of an expression is an expression of the level below, which is among those
  -- of the level itself.
  have hself : (upTo levels).Owns (upTo levels) := by
    induction levels with
    | zero => exact ⟨fun _ _ _ _ hform => hform.elim, fun _ _ _ hform => hform.elim⟩
    | succ levels ih =>
      exact ⟨fun power => (expression_owns ih power).mono (upTo_succ levels), (braced_owns ih).mono (upTo_succ levels)⟩
  exact ⟨expression_owns hself, braced_owns hself⟩

/-! ## Items -/

section

variable (h : inner.Owns outer)

include h

theorem defined_owns : Owns (Defined inner) outer Definition.expressions := by
  intro tokens next d hdefined
  cases hdefined with
  | function hnamed => exact named_owns h hnamed
  | trait _ _ _ hmethods _ =>
    exact ((((many_owns (named_owns h) hmethods).append_right _).behind _).behind _).behind _
  | type _ _ _ _ hbody =>
    exact ((((block?_owns h hbody).append_left _).append_left _).behind _).behind _
  | unit _ _ hbody => exact ((block?_owns h hbody).behind _).behind _

/-- Apart from the links of the chain that an item starts with, its expressions are inside of others. -/
theorem item_owns_rest {i : WattFront.Item} (hitem : Item inner tokens next i) :
    ∀ x ∈ i.expressions, x ∈ i.leadingLinks ∨ Owned outer tokens x := by
  cases hitem with
  | definition hdefined => exact fun x hx => .inr (defined_owns h hdefined x hx)
  | imports => exact List.forall_mem_nil _
  | statement hstatement => exact statement_owns_rest h hstatement

omit h in
theorem item_owns_leading {i : WattFront.Item} (hitem : Item inner tokens next i) :
    OwnsAll inner tokens i.leadingLinks := by
  cases hitem with
  | definition | imports => exact .nil
  | statement hstatement => exact statement_owns_leading hstatement

end

/-- The tokens of an expression of an item. They leave a level for the expression itself, unless it is a link of the
chain that the item starts with. -/
theorem item_owns {levels : Nat} {i : WattFront.Item} (hitem : Item (upTo (levels + 1)) tokens next i)
    (hx : x ∈ i.expressions) :
    ∃ front own back next, tokens = front ++ (own ++ back) ∧ Ungrouped (upTo (levels + 1)) own next x
      ∧ (Operated (upTo levels) .lowest own next x ∨ x ∈ i.leadingLinks) := by
  rcases item_owns_rest (upTo_owns levels) hitem x hx with hlink | ⟨front, own, back, next, rfl, hown⟩
  · obtain ⟨front, own, back, next, rfl, hown⟩ := item_owns_leading hitem x hlink
    exact ⟨front, own, back, next, rfl, hown, .inr hlink⟩
  · exact ⟨front, own, back, next, rfl, hown.mono (upTo_succ levels), .inl hown.operated⟩

end WattFront.Spelling
