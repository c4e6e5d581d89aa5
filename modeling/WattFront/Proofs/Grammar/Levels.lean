import WattFront.Proofs.Grammar.Spelling

/-! # More levels of nesting spell more

What is spelled with some levels of nesting is spelled with more of them. The forms are monotone in the
expressions and blocks inside them, one after the other, and `upTo_mono` follows by induction on the
levels.
-/

namespace WattFront

/-- One form allows whatever another one allows. -/
def Form.Within {α : Type} (form larger : Form α) : Prop :=
  ∀ tokens next a, form tokens next a → larger tokens next a

structure Spelling.Inner.Within (inner larger : Spelling.Inner) : Prop where
  expr (power : BindingPower) : (inner.expr power).Within (larger.expr power)
  block : inner.block.Within larger.block

namespace Spelling

open Grammar

/-! ## Lists and clauses -/

section

variable {α : Type} {item larger : Form α} {tokens : List Token} {next : Token}

theorem Many.mono {goesOn : TokenKind → Bool} (h : item.Within larger) {as : List α}
    (hmany : Many goesOn item tokens next as) : Many goesOn larger tokens next as := by
  induction hmany with
  | nil hnext => exact .nil hnext
  | cons hitem _ ih => exact .cons (h _ _ _ hitem) ih

theorem Separated.mono (h : item.Within larger) {as : List α} (hitems : Separated item tokens next as) :
    Separated larger tokens next as := by
  induction hitems with
  | one hitem hnext => exact .one (h _ _ _ hitem) hnext
  | more hitem hcomma _ ih => exact .more (h _ _ _ hitem) hcomma ih

theorem Bracketed.mono {opening closing : TokenKind} (h : item.Within larger) {as : List α}
    (hform : Bracketed opening closing item tokens next as) :
    Bracketed opening closing larger tokens next as := by
  obtain ⟨hopen, hlist⟩ := hform
  cases hlist with
  | nil hclose => exact .intro hopen (.nil hclose)
  | cons hitems hclose => exact .intro hopen (.cons (hitems.mono h) hclose)

theorem Clause.mono {opening : TokenKind} (h : item.Within larger) {a? : Option α}
    (hclause : Clause opening item tokens next a?) : Clause opening larger tokens next a? := by
  cases hclause with
  | none hnext => exact .none hnext
  | some hitem => exact .some (h _ _ _ hitem)

end

section

variable {inner larger : Inner} (h : inner.Within larger)

include h

/-! ## Expressions -/

theorem Links.mono : (Links inner).Within (Links larger) := by
  intro tokens next e hlinks
  induction hlinks with
  | name hkind => exact .name hkind
  | member _ hdot hproperty ih => exact .member ih hdot hproperty
  | call _ harguments hnext ih => exact .call ih (harguments.mono (h.expr _)) hnext
  | propagate _ harguments hmark ih => exact .propagate ih (harguments.mono (h.expr _)) hmark

theorem Chain.mono : (Chain inner).Within (Chain larger) := by
  intro tokens next e hchain
  obtain ⟨hlinks, hnext⟩ := hchain
  exact .intro (Links.mono h _ _ _ hlinks) hnext

theorem Entry.mono : (Entry inner).Within (Entry larger) := by
  intro tokens next p hentry
  obtain ⟨hkey, hcolon, hvalue⟩ := hentry
  exact .intro (h.expr _ _ _ _ hkey) hcolon (h.expr _ _ _ _ hvalue)

theorem Body.mono : (Body inner).Within (Body larger) := by
  intro tokens next b hbody
  cases hbody with
  | expr harrow hvalue => exact .expr harrow (h.expr _ _ _ _ hvalue)
  | block hblock => exact .block (h.block _ _ _ hblock)

theorem Case.mono (keyword : TokenKind) : (Case inner keyword).Within (Case larger keyword) := by
  intro tokens next a hcase
  obtain ⟨hfirst, hpattern, hbody⟩ := hcase
  exact .intro hfirst (h.expr _ _ _ _ hpattern) (Body.mono h _ _ _ hbody)

theorem Operand.mono : (Operand inner).Within (Operand larger) := by
  intro tokens next e hoperand
  cases hoperand with
  | literal hliteral => exact .literal hliteral
  | chain hchain => exact .chain (Chain.mono h _ _ _ hchain)
  | list helements => exact .list (helements.mono (h.expr _))
  | map hpairs => exact .map (hpairs.mono (Entry.mono h))
  | negate hfirst hinner => exact .negate hfirst (h.expr _ _ _ _ hinner)
  | not hfirst hinner => exact .not hfirst (h.expr _ _ _ _ hinner)
  | group hfirst hinner hclose => exact .group hfirst (h.expr _ _ _ _ hinner) hclose
  | new hfirst hname harguments => exact .new hfirst hname (harguments.mono (h.expr _))
  | choice hfirst hscrutinee hcases hfallback =>
    exact .choice hfirst (h.expr _ _ _ _ hscrutinee) (hcases.mono (Case.mono h _))
      (hfallback.mono (Case.mono h _))
  | lambda hfirst hparameters harrow hbody =>
    exact .lambda hfirst hparameters harrow (h.expr _ _ _ _ hbody)
  | function hfirst hparameters hbody => exact .function hfirst hparameters (h.block _ _ _ hbody)

theorem Operated.mono (power : BindingPower) : (Operated inner power).Within (Operated larger power) := by
  intro tokens next e hoperated
  induction hoperated with
  | operand hoperand => exact .operand (Operand.mono h _ _ _ hoperand)
  | binary _ htight hop hright ih => exact .binary ih htight hop (h.expr _ _ _ _ hright)

theorem Expression.mono (power : BindingPower) :
    (Expression inner power).Within (Expression larger power) := by
  intro tokens next e hexpression
  obtain ⟨hoperated, hnext⟩ := hexpression
  exact .intro (Operated.mono h power _ _ _ hoperated) hnext

/-! ## Statements -/

theorem Elif.mono : (Elif inner).Within (Elif larger) := by
  intro tokens next b helif
  obtain ⟨hfirst, hcondition, hbody⟩ := helif
  exact .intro hfirst (h.expr _ _ _ _ hcondition) (h.block _ _ _ hbody)

theorem Otherwise.mono : (Otherwise inner).Within (Otherwise larger) := by
  intro tokens next b hotherwise
  obtain ⟨hfirst, hbody⟩ := hotherwise
  exact .intro hfirst (h.block _ _ _ hbody)

theorem Named.mono : (Named inner).Within (Named larger) := by
  intro tokens next f hnamed
  obtain ⟨hfirst, hname, hparameters, hbody⟩ := hnamed
  exact .intro hfirst hname hparameters (hbody.mono h.block)

theorem Statement.mono : (Statement inner).Within (Statement larger) := by
  intro tokens next s hstatement
  cases hstatement with
  | define htarget hmark hvalue =>
    exact .define (Chain.mono h _ _ _ htarget) hmark (h.expr _ _ _ _ hvalue)
  | assign htarget hmark hvalue =>
    exact .assign (Chain.mono h _ _ _ htarget) hmark (h.expr _ _ _ _ hvalue)
  | expression hchain hdefine hassign =>
    exact .expression (Chain.mono h _ _ _ hchain) hdefine hassign
  | returnValue hfirst hvalue => exact .returnValue hfirst (h.expr _ _ _ _ hvalue)
  | whileLoop hfirst hcondition hbody =>
    exact .whileLoop hfirst (h.expr _ _ _ _ hcondition) (h.block _ _ _ hbody)
  | conditional hfirst hcondition hbody helifs hotherwise =>
    exact .conditional hfirst (h.expr _ _ _ _ hcondition) (h.block _ _ _ hbody)
      (helifs.mono (Elif.mono h)) (hotherwise.mono (Otherwise.mono h))
  | forLoop hfirst hname hword hiterable hbody =>
    exact .forLoop hfirst hname hword (h.expr _ _ _ _ hiterable) (h.block _ _ _ hbody)
  | breakLoop hkind => exact .breakLoop hkind
  | continueLoop hkind => exact .continueLoop hkind
  | native hfirst hname harrow hsymbol => exact .native hfirst hname harrow hsymbol
  | function hnamed => exact .function (Named.mono h _ _ _ hnamed)

theorem Braced.mono : (Braced inner).Within (Braced larger) := by
  intro tokens next b hbraced
  obtain ⟨hfirst, hstatements, hclose⟩ := hbraced
  exact .intro hfirst (hstatements.mono (Statement.mono h)) hclose

end

/-! ## Levels -/

theorem upTo_succ (levels : Nat) : (upTo levels).Within (upTo (levels + 1)) := by
  induction levels with
  | zero => exact ⟨fun _ _ _ _ hform => hform.elim, fun _ _ _ hform => hform.elim⟩
  | succ levels ih => exact ⟨fun power => Expression.mono ih power, Braced.mono ih⟩

/-- With more levels, more is spelled. -/
theorem upTo_mono {levels more : Nat} (h : levels ≤ more) : (upTo levels).Within (upTo more) := by
  induction h with
  | refl => exact ⟨fun _ _ _ _ hform => hform, fun _ _ _ hform => hform⟩
  | @step more _ ih =>
    have hsucc := upTo_succ more
    exact ⟨fun power _ _ _ hform => hsucc.expr power _ _ _ (ih.expr power _ _ _ hform),
      fun _ _ _ hform => hsucc.block _ _ _ (ih.block _ _ _ hform)⟩

end Spelling

end WattFront
