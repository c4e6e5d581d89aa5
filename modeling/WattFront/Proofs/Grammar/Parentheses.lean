import WattFront.Proofs.Grammar.ExpressionForms
import WattFront.Proofs.Grammar.Levels

/-! # Parentheses belong together

Each construct closes the parentheses that it opens, and no others. `openParens` counts them along a token list, and
every form of the grammar spells lists for which the count comes out even.

* `Balanced` — token lists in which the parentheses belong together;
* `Form.Balances` — the forms that spell such lists only, with one lemma for each form;
* `Spelling.upTo_balances` — the result for expressions and blocks.
-/

namespace WattFront

/-! ## Counting -/

def TokenKind.isParen (kind : TokenKind) : Bool :=
  kind = .openParen || kind = .closeParen

/-- How many parentheses are open behind a token. There is no answer if it closes one that was not opened. -/
def afterParen (count : Nat) : TokenKind → Option Nat
  | .openParen => some (count + 1)
  | .closeParen => if count = 0 then none else some (count - 1)
  | _ => some count

def openParens (count : Nat) (tokens : List Token) : Option Nat :=
  tokens.foldlM (fun count t => afterParen count t.kind) count

/-- All parentheses that are opened among some tokens are closed there, and no others. -/
def Balanced (tokens : List Token) : Prop :=
  openParens 0 tokens = some 0

instance (tokens : List Token) : Decidable (Balanced tokens) :=
  inferInstanceAs (Decidable (_ = _))

section

variable {t first close : Token} {tokens others : List Token}

theorem openParens_cons (count : Nat) (t : Token) (ts : List Token) :
    openParens count (t :: ts) = (afterParen count t.kind).bind (openParens · ts) :=
  List.foldlM_cons ..

theorem openParens_append (count : Nat) (as bs : List Token) :
    openParens count (as ++ bs) = (openParens count as).bind (openParens · bs) :=
  List.foldlM_append ..

theorem openParens_open (h : t.kind = .openParen) (count : Nat) (ts : List Token) :
    openParens count (t :: ts) = openParens (count + 1) ts := by
  rw [openParens_cons, h]
  rfl

theorem openParens_close (h : t.kind = .closeParen) (count : Nat) (ts : List Token) :
    openParens (count + 1) (t :: ts) = openParens count ts := by
  rw [openParens_cons, h]
  rfl

theorem openParens_plain (h : t.kind.isParen = false) (count : Nat) (ts : List Token) :
    openParens count (t :: ts) = openParens count ts := by
  have hsame : afterParen count t.kind = some count := by
    generalize t.kind = kind at h ⊢
    cases kind <;> first | rfl | cases h
  rw [openParens_cons, hsame]
  rfl

theorem afterParen_add {kind : TokenKind} {count result : Nat} (h : afterParen count kind = some result) (more : Nat) :
    afterParen (count + more) kind = some (result + more) := by
  cases kind <;> simp only [afterParen, Option.some.injEq, Option.ite_none_left_eq_some] at h ⊢ <;> omega

/-- More open parentheses in front stay open. -/
theorem openParens_add {count result : Nat} (h : openParens count tokens = some result) (more : Nat) :
    openParens (count + more) tokens = some (result + more) := by
  induction tokens generalizing count with
  | nil =>
    cases h
    rfl
  | cons t tokens ih =>
    rw [openParens_cons] at h ⊢
    obtain ⟨behind, hbehind, hrest⟩ := Option.bind_eq_some_iff.1 h
    rw [afterParen_add hbehind more]
    exact ih hrest

namespace Balanced

theorem nil : Balanced [] := rfl

theorem openParens_eq (h : Balanced tokens) (count : Nat) : openParens count tokens = some count := by
  have hmore := openParens_add h count
  rwa [Nat.zero_add] at hmore

/-- Balanced tokens in front do not matter. -/
theorem openParens_append (h : Balanced tokens) (count : Nat) (others : List Token) :
    openParens count (tokens ++ others) = openParens count others := by
  rw [WattFront.openParens_append, h.openParens_eq]
  rfl

theorem append (h : Balanced tokens) (h' : Balanced others) : Balanced (tokens ++ others) := by
  rw [Balanced, h.openParens_append]
  exact h'

theorem cons (hkind : t.kind.isParen = false) (h : Balanced tokens) : Balanced (t :: tokens) := by
  rw [Balanced, openParens_plain hkind]
  exact h

theorem singleton (hkind : t.kind.isParen = false) : Balanced [t] :=
  .cons hkind .nil

end Balanced

/-- Whether a bracket closes what the other one opens, as far as parentheses are concerned. -/
def TokenKind.closes (closing opening : TokenKind) : Bool :=
  if opening = .openParen then closing = .closeParen else !opening.isParen && !closing.isParen

theorem Balanced.enclosed (hclose : close.kind.closes first.kind = true) (h : Balanced tokens) :
    Balanced (first :: (tokens ++ [close])) := by
  rw [TokenKind.closes] at hclose
  split at hclose
  · next hopen =>
    rw [Balanced, openParens_open hopen, h.openParens_append, openParens_close (of_decide_eq_true hclose)]
    rfl
  · simp only [Bool.and_eq_true, Bool.not_eq_true'] at hclose
    exact .cons hclose.1 (h.append (.singleton hclose.2))

end

/-- No operator is a parenthesis. -/
theorem BinaryOp.isParen_of_ofToken? {kind : TokenKind} {op : BinaryOp} (hop : ofToken? kind = some op) :
    kind.isParen = false := by
  cases kind <;> first | rfl | cases hop

theorem AssignOp.isParen_of_ofToken? {kind : TokenKind} {op : AssignOp} (hop : ofToken? kind = some op) :
    kind.isParen = false := by
  cases kind <;> first | rfl | cases hop

/-! ## Forms -/

def Form.Balances {α : Type} (form : Form α) : Prop :=
  ∀ ⦃tokens next a⦄, form tokens next a → Balanced tokens

namespace Spelling

open Grammar

section

variable {α : Type} {item : Form α}

theorem many_balances {goesOn : TokenKind → Bool} (h : item.Balances) : (Many goesOn item).Balances := by
  intro tokens next as hmany
  induction hmany with
  | nil => exact .nil
  | cons hitem _ ih => exact (h hitem).append ih

theorem separated_balances (h : item.Balances) : (Separated item).Balances := by
  intro tokens next as hitems
  induction hitems with
  | one hitem => exact h hitem
  | more hitem hcomma _ ih => exact (h hitem).append (.cons (by rw [hcomma]; rfl) ih)

theorem bracketed_balances {opening closing : TokenKind} (h : item.Balances) (hcloses : closing.closes opening = true) :
    (Bracketed opening closing item).Balances := by
  intro tokens next as hlist
  obtain ⟨rfl, hlist⟩ := hlist
  cases hlist with
  | nil hclose => exact Balanced.enclosed (hclose ▸ hcloses) .nil
  | cons hitems hclose => exact .enclosed (hclose ▸ hcloses) (separated_balances h hitems)

theorem clause_balances {opening : TokenKind} (h : item.Balances) : (Clause opening item).Balances := by
  intro tokens next a? hclause
  cases hclause with
  | none => exact .nil
  | some hitem => exact h hitem

end

theorem name_balances : Name.Balances := by
  intro tokens next i hname
  obtain ⟨hkind⟩ := hname
  exact .singleton (by rw [hkind]; rfl)

theorem parameters_balance : Parameters.Balances :=
  bracketed_balances name_balances rfl

theorem literal_balances : Literal.Balances := by
  intro tokens next e hliteral
  cases hliteral with
  | number hkind | string hkind | true hkind | false hkind => exact .singleton (by rw [hkind]; rfl)

structure Inner.Balances (inner : Inner) : Prop where
  expr (power : BindingPower) : (inner.expr power).Balances
  block : inner.block.Balances

section

variable {inner : Inner} (h : inner.Balances)

include h

/-! ## Expressions -/

theorem arguments_balance : (Arguments inner).Balances :=
  bracketed_balances (h.expr _) rfl

theorem links_balances : (Links inner).Balances := by
  intro tokens next e hlinks
  induction hlinks with
  | name hkind => exact .singleton (by rw [hkind]; rfl)
  | member _ hdot hproperty ih =>
    exact ih.append (.cons (by rw [hdot]; rfl) (.singleton (by rw [hproperty]; rfl)))
  | call _ harguments _ ih => exact ih.append (arguments_balance h harguments)
  | propagate _ harguments hmark ih =>
    exact ih.append ((arguments_balance h harguments).append (.singleton (by rw [hmark]; rfl)))

theorem chain_balances : (Chain inner).Balances := by
  intro tokens next e hchain
  obtain ⟨hlinks, -⟩ := hchain
  exact links_balances h hlinks

theorem entry_balances : (Entry inner).Balances := by
  intro tokens next p hentry
  obtain ⟨hkey, hcolon, hvalue⟩ := hentry
  exact (h.expr _ hkey).append (.cons (by rw [hcolon]; rfl) (h.expr _ hvalue))

theorem body_balances : (Body inner).Balances := by
  intro tokens next b hbody
  cases hbody with
  | expr harrow hvalue => exact .cons (by rw [harrow]; rfl) (h.expr _ hvalue)
  | block hblock => exact h.block hblock

theorem case_balances {keyword : TokenKind} (hkeyword : keyword.isParen = false) : (Case inner keyword).Balances := by
  intro tokens next a hcase
  obtain ⟨rfl, hpattern, hbody⟩ := hcase
  exact .cons hkeyword ((h.expr _ hpattern).append (body_balances h hbody))

theorem operand_balances : (Operand inner).Balances := by
  intro tokens next e hoperand
  cases hoperand with
  | literal hliteral => exact literal_balances hliteral
  | chain hchain => exact chain_balances h hchain
  | list helements => exact bracketed_balances (h.expr _) rfl helements
  | map hpairs => exact bracketed_balances (entry_balances h) rfl hpairs
  | negate hfirst hinner | not hfirst hinner => exact .cons (by rw [hfirst]; rfl) (h.expr _ hinner)
  | group hfirst hinner hclose => exact .enclosed (by rw [hfirst, hclose]; rfl) (h.expr _ hinner)
  | new hfirst hname harguments =>
    exact .cons (by rw [hfirst]; rfl) (.cons (by rw [hname]; rfl) (arguments_balance h harguments))
  | choice hfirst hscrutinee hcases hfallback =>
    have harms := (many_balances (case_balances h rfl) hcases).append (clause_balances (case_balances h rfl) hfallback)
    exact .cons (by rw [hfirst]; rfl) ((h.expr _ hscrutinee).append harms)
  | lambda hfirst hparameters harrow hbody =>
    have hvalue := Balanced.cons (by rw [harrow]; rfl) (h.expr _ hbody)
    exact .cons (by rw [hfirst]; rfl) ((parameters_balance hparameters).append hvalue)
  | function hfirst hparameters hbody =>
    exact .cons (by rw [hfirst]; rfl) ((parameters_balance hparameters).append (h.block hbody))

theorem operated_balances (power : BindingPower) : (Operated inner power).Balances := by
  intro tokens next e hoperated
  induction hoperated with
  | operand hoperand => exact operand_balances h hoperand
  | binary _ _ hop hright ih => exact ih.append (.cons (BinaryOp.isParen_of_ofToken? hop) (h.expr _ hright))

theorem expression_balances (power : BindingPower) : (Expression inner power).Balances := by
  intro tokens next e hexpression
  obtain ⟨hoperated, -⟩ := hexpression
  exact operated_balances h power hoperated

/-! ## Statements -/

theorem elif_balances : (Elif inner).Balances := by
  intro tokens next b helif
  obtain ⟨hfirst, hcondition, hbody⟩ := helif
  exact .cons (by rw [hfirst]; rfl) ((h.expr _ hcondition).append (h.block hbody))

theorem otherwise_balances : (Otherwise inner).Balances := by
  intro tokens next b hotherwise
  obtain ⟨hfirst, hbody⟩ := hotherwise
  exact .cons (by rw [hfirst]; rfl) (h.block hbody)

theorem named_balances : (Named inner).Balances := by
  intro tokens next f hnamed
  obtain ⟨hfirst, hname, hparameters, hbody⟩ := hnamed
  exact .cons (by rw [hfirst]; rfl) (.cons (by rw [hname]; rfl)
    ((clause_balances parameters_balance hparameters).append (clause_balances h.block hbody)))

theorem statement_balances : (Statement inner).Balances := by
  intro tokens next s hstatement
  cases hstatement with
  | define htarget hmark hvalue =>
    exact (chain_balances h htarget).append (.cons (by rw [hmark]; rfl) (h.expr _ hvalue))
  | assign htarget hmark hvalue =>
    exact (chain_balances h htarget).append (.cons (AssignOp.isParen_of_ofToken? hmark) (h.expr _ hvalue))
  | expression hchain => exact chain_balances h hchain
  | returnValue hfirst hvalue => exact .cons (by rw [hfirst]; rfl) (h.expr _ hvalue)
  | whileLoop hfirst hcondition hbody =>
    exact .cons (by rw [hfirst]; rfl) ((h.expr _ hcondition).append (h.block hbody))
  | conditional hfirst hcondition hbody helifs hotherwise =>
    have hothers := (many_balances (elif_balances h) helifs).append (clause_balances (otherwise_balances h) hotherwise)
    exact .cons (by rw [hfirst]; rfl) ((h.expr _ hcondition).append ((h.block hbody).append hothers))
  | forLoop hfirst hname hword hiterable hbody =>
    exact .cons (by rw [hfirst]; rfl) (.cons (by rw [hname]; rfl) (.cons (by rw [hword]; rfl)
      ((h.expr _ hiterable).append (h.block hbody))))
  | breakLoop hkind | continueLoop hkind => exact .singleton (by rw [hkind]; rfl)
  | native hfirst hname harrow hsymbol =>
    exact .cons (by rw [hfirst]; rfl) (.cons (by rw [hname]; rfl) (.cons (by rw [harrow]; rfl)
      (.singleton (by rw [hsymbol]; rfl))))
  | function hnamed => exact named_balances h hnamed

theorem braced_balances : (Braced inner).Balances := by
  intro tokens next b hbraced
  obtain ⟨hfirst, hstatements, hclose⟩ := hbraced
  exact .enclosed (by rw [hfirst, hclose]; rfl) (many_balances (statement_balances h) hstatements)

end

/-- Expressions and blocks of any depth close the parentheses that they open. -/
theorem upTo_balances (levels : Nat) : (upTo levels).Balances := by
  induction levels with
  | zero => exact ⟨fun _ _ _ _ hform => hform.elim, fun _ _ _ hform => hform.elim⟩
  | succ levels ih => exact ⟨expression_balances ih, braced_balances ih⟩

end Spelling

end WattFront
