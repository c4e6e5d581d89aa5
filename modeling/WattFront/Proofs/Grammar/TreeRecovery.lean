import WattFront.Proofs.Grammar.ProgramForms
import WattFront.Proofs.Grammar.Recovery
import WattFront.Proofs.Tree.Bare
import WattFront.Proofs.Tree.WellFormed

/-! # Every well-formed program is read back from its spelling

The forms of the grammar recover a tree from the words of its canonical spelling, provided that they have
as many levels of nesting as the spelling opens. The proof is by induction on the tree. Since an
expression inside another construct stands in parentheses, no operator behind it can take hold of its
parts (`recovers_grouped`), and a statement ends because no construct goes on with a token that starts the
next one (`endsStatement`).
-/

namespace WattFront

open Grammar Spelling Word

def noOperator (w : Word) : Prop :=
  bindsTighter .lowest w.kind = false

def endsStatement (kind : TokenKind) : Bool :=
  kind = .closeCurly || kind = .endOfInput || kind = .identifier || kind.statementForm?.isSome
    || kind.itemForm?.isSome

/-- No construct goes on with a token of this kind. -/
structure Unclaimed (kind : TokenKind) : Prop where
  operator : bindsTighter .lowest kind = false
  link : opensLink kind = false
  question : kind ≠ .question
  define : kind ≠ .define
  assign : AssignOp.ofToken? kind = none
  parameters : kind ≠ .openParen
  body : kind ≠ .openCurly
  branch : opensBranch kind = false
  otherwise : kind ≠ .kwElse
  comma : kind ≠ .comma
  importName : kind ≠ .kwWith

theorem unclaimed_of_endsStatement {kind : TokenKind} (h : endsStatement kind = true) :
    Unclaimed kind := by
  constructor
  all_goals
    revert h
    cases kind <;> decide

/-- The forms recover a tree from the words of its spelling with as many levels as it opens. -/
def recovered : TreeProperty where
  expr e := e.shaped = true → AllWritable e.traces → ∀ n, e.levels ≤ n →
    (Expression (upTo n) .lowest).Recovers Expr.bare e.words e (fun w => w.kind = .closeParen)
      ∧ (e.isChain = true → (Links (upTo n)).Recovers Expr.bare e.words e fun w => w.kind ≠ .question)
  pair p := p.shaped = true → AllWritable p.traces → ∀ n, p.levels ≤ n →
    (Entry (upTo n)).Recovers Pair.bare p.words p noOperator
  arm a := a.shaped = true → AllWritable a.traces → ∀ n, a.levels ≤ n → ∀ keyword,
    (Case (upTo n) keyword).Recovers Arm.bare (keyword.word :: a.words) a noOperator
  body b := b.shaped = true → AllWritable b.traces → ∀ n, b.levels ≤ n →
    (Body (upTo n)).Recovers ArmBody.bare b.words b noOperator
  block b := b.shaped = true → AllWritable b.traces → ∀ n, b.levels ≤ n →
    (upTo n).block.Recovers Block.bare b.words b fun _ => True
  stmt s := s.shaped = true → AllWritable s.traces → ∀ n, s.levels ≤ n →
    (Statement (upTo n)).Recovers Stmt.bare s.words s fun w => endsStatement w.kind = true
  branch b := b.shaped = true → AllWritable b.traces → ∀ n, b.levels ≤ n →
    (Elif (upTo n)).Recovers Branch.bare b.words b fun _ => True
  function f := f.shaped = true → AllWritable f.traces → ∀ n, f.levels ≤ n →
    (Named (upTo n)).Recovers Function.bare f.words f
      fun w => w.kind ≠ .openParen ∧ w.kind ≠ .openCurly

variable {e : Expr} {n : Nat} {ws : List Word} {tokens : List Token} {next : Token}

theorem noOperator_of_closeParen (h : next.word.kind = .closeParen) : noOperator next.word := by
  rw [noOperator, h]
  rfl

/-- A block starts with its brace. -/
theorem Block.words_eq (b : Block) :
    b.words = TokenKind.openCurly.word :: (Stmt.wordsAll b.statements ++ [TokenKind.closeCurly.word]) := by
  cases b
  rw [Block.words]

/-! ## Expressions in parentheses -/

theorem operand_grouped (h : recovered.expr e) (hshaped : e.shaped = true)
    (hwritable : AllWritable e.traces) (hn : e.levels + 1 ≤ n) :
    (Operand (upTo n)).Recovers Expr.bare (grouped e.words) e fun _ => True := by
  intro tokens next htokens _
  obtain ⟨first, rest, rfl, hfirst, _, hrest⟩ := exists_cons_of_words htokens
  obtain ⟨front, back, rfl, hfront, hback⟩ := exists_append_of_words hrest
  obtain ⟨close, others, rfl, hclose, _, hothers⟩ := exists_cons_of_words hback
  obtain rfl := eq_nil_of_words hothers
  obtain ⟨m, rfl⟩ : ∃ m, n = m + 1 := ⟨n - 1, by omega⟩
  obtain ⟨b, hb, hbare⟩ := (h hshaped hwritable m (by omega)).1 front close hfront hclose
  exact ⟨b, .group hfirst hb hclose, hbare⟩

/-- Whatever an expression is, in parentheses it is an operand, at every power. -/
theorem recovers_grouped (h : recovered.expr e) (hshaped : e.shaped = true)
    (hwritable : AllWritable e.traces) (hn : e.levels + 2 ≤ n) (power : BindingPower) :
    ((upTo n).expr power).Recovers Expr.bare (grouped e.words) e
      fun w => bindsTighter power w.kind = false := by
  intro tokens next htokens hnext
  obtain ⟨m, rfl⟩ : ∃ m, n = m + 1 := ⟨n - 1, by omega⟩
  have hm : e.levels + 1 ≤ m := by omega
  obtain ⟨b, hb, hbare⟩ := operand_grouped h hshaped hwritable hm tokens next htokens trivial
  exact ⟨b, .intro (.operand hb) hnext, hbare⟩

theorem recovers_elements (opening : TokenKind) {closing : TokenKind} {es : List Expr}
    (h : ∀ e ∈ es, recovered.expr e) (hshaped : Expr.allShaped es = true)
    (hwritable : AllWritable (Expr.tracesAll es)) (hn : Expr.levelsAll es ≤ n)
    (hclose : noOperator closing.word) (hclosing : closing ≠ .comma) :
    (Bracketed opening closing ((upTo n).expr .lowest)).Recovers (List.map Expr.bare)
      (bracketed opening closing (Expr.wordsAll es)) es fun _ => True := by
  rw [Expr.wordsAll_eq]
  rw [Expr.allShaped_eq, List.all_eq_true] at hshaped
  rw [Expr.tracesAll_eq, AllWritable.flatMap_iff] at hwritable
  rw [Expr.levelsAll_le] at hn
  have hcomma : noOperator TokenKind.comma.word := rfl
  refine recovers_bracketed ?_ hcomma hclose hclosing
  intro e member
  exact recovers_grouped (h e member) (hshaped e member) (hwritable e member) (hn e member) .lowest

theorem recovers_pairs {ps : List Pair} (h : ∀ p ∈ ps, recovered.pair p)
    (hshaped : Pair.allShaped ps = true) (hwritable : AllWritable (Pair.tracesAll ps))
    (hn : Pair.levelsAll ps ≤ n) :
    (Bracketed .openCurly .closeCurly (Entry (upTo n))).Recovers (List.map Pair.bare)
      (bracketed .openCurly .closeCurly (Pair.wordsAll ps)) ps fun _ => True := by
  rw [Pair.wordsAll_eq]
  rw [Pair.allShaped_eq, List.all_eq_true] at hshaped
  rw [Pair.tracesAll_eq, AllWritable.flatMap_iff] at hwritable
  rw [Pair.levelsAll_le] at hn
  have hcomma : noOperator TokenKind.comma.word := rfl
  have hclose : noOperator TokenKind.closeCurly.word := rfl
  refine recovers_bracketed ?_ hcomma hclose (by decide)
  intro p member
  exact h p member (hshaped p member) (hwritable p member) n (hn p member)

theorem recovers_arguments {es : List Expr} (h : ∀ e ∈ es, recovered.expr e)
    (hshaped : Expr.allShaped es = true) (hwritable : AllWritable (Expr.tracesAll es))
    (hn : Expr.levelsAll es ≤ n) :
    (Arguments (upTo n)).Recovers (List.map Expr.bare)
      (bracketed .openParen .closeParen (Expr.wordsAll es)) es fun _ => True :=
  recovers_elements .openParen h hshaped hwritable hn rfl (by decide)

/-! ## Operands and chains -/

/-- Only a chain has to be read without parentheses in front of a link. -/
theorem recovers_of_expression (hchain : e.isChain = false)
    (h : (Expression (upTo n) .lowest).Recovers Expr.bare ws e fun w => w.kind = .closeParen) :
    (Expression (upTo n) .lowest).Recovers Expr.bare ws e (fun w => w.kind = .closeParen)
      ∧ (e.isChain = true → (Links (upTo n)).Recovers Expr.bare ws e fun w => w.kind ≠ .question) :=
  ⟨h, fun hlinks => absurd (hchain.symm.trans hlinks) Bool.false_ne_true⟩

theorem expression_of_operand
    (h : (Operand (upTo n)).Recovers Expr.bare ws e fun w => w.kind = .closeParen) :
    (Expression (upTo n) .lowest).Recovers Expr.bare ws e fun w => w.kind = .closeParen := by
  intro tokens next htokens hnext
  obtain ⟨b, hb, hbare⟩ := h tokens next htokens hnext
  have hclose : next.kind = .closeParen := hnext
  exact ⟨b, .intro (.operand hb) (by rw [hclose]; rfl), hbare⟩

theorem recovers_of_operand (hchain : e.isChain = false)
    (h : (Operand (upTo n)).Recovers Expr.bare ws e fun w => w.kind = .closeParen) :
    (Expression (upTo n) .lowest).Recovers Expr.bare ws e (fun w => w.kind = .closeParen)
      ∧ (e.isChain = true → (Links (upTo n)).Recovers Expr.bare ws e fun w => w.kind ≠ .question) :=
  recovers_of_expression hchain (expression_of_operand h)

theorem recovers_chain (h : (Links (upTo n)).Recovers Expr.bare ws e fun w => w.kind ≠ .question) :
    (Chain (upTo n)).Recovers Expr.bare ws e
      fun w => w.kind ≠ .question ∧ opensLink w.kind = false := by
  intro tokens next htokens hnext
  obtain ⟨b, hb, hbare⟩ := h tokens next htokens hnext.1
  exact ⟨b, .intro hb hnext.2, hbare⟩

/-- A chain is an operand as well. -/
theorem recovers_of_links (h : (Links (upTo n)).Recovers Expr.bare ws e fun w => w.kind ≠ .question) :
    (Expression (upTo n) .lowest).Recovers Expr.bare ws e (fun w => w.kind = .closeParen)
      ∧ (e.isChain = true → (Links (upTo n)).Recovers Expr.bare ws e fun w => w.kind ≠ .question) := by
  refine ⟨expression_of_operand ?_, fun _ => h⟩
  intro tokens next htokens hnext
  have hclose : next.kind = .closeParen := hnext
  obtain ⟨b, hb, hbare⟩ := recovers_chain h tokens next htokens
    ⟨ne_of_eq_of_ne hclose (by decide), by rw [Token.word, hclose]; rfl⟩
  exact ⟨b, .chain hb, hbare⟩

theorem recovers_name (i : Ident) : Name.Recovers Ident.bare [i.word] i fun _ => True := by
  intro tokens next htokens _
  obtain ⟨first, others, rfl, hfirst, hvalue, hothers⟩ := exists_cons_of_words htokens
  obtain rfl := eq_nil_of_words hothers
  exact ⟨_, .intro hfirst, by rw [Ident.bare, hvalue]; rfl⟩

theorem recovers_parameters (names : List Ident) :
    Parameters.Recovers (List.map Ident.bare) (parameters names) names fun _ => True :=
  recovers_bracketed (fun i _ => recovers_name i) trivial trivial (by decide)

theorem value?_of_writable {value : Int} (h : (Trace.number value).Writable) :
    Numeral.value? (toString value).toList = some value := by
  obtain ⟨hzero, hlimit⟩ := h
  obtain ⟨m, rfl⟩ := Int.eq_ofNat_of_zero_le hzero
  have hm : m ≤ 2 ^ 63 - 1 := by omega
  have htext : (toString (m : Int)).toList = Nat.toDigits 10 m := Nat.toList_repr
  obtain ⟨c, cs, hdigits⟩ := List.exists_cons_of_ne_nil (Nat.toDigits_ne_nil (n := m) (b := 10))
  have hall : ∀ d ∈ Nat.toDigits 10 m, d.isDigit = true :=
    fun d member => Nat.isDigit_of_mem_toDigits (by decide) (by decide) member
  rw [htext, hdigits, Numeral.value?_of_digits (hdigits ▸ hall), ← hdigits, Numeral.toNat_toDigits,
    if_pos hm]

/-! ## Trees -/

theorem recovers_new (i : Ident) (s : Span) {es : List Expr} (h : ∀ e ∈ es, recovered.expr e)
    (hshaped : Expr.allShaped es = true) (hwritable : AllWritable (Expr.tracesAll es))
    (hn : Expr.levelsAll es ≤ n) :
    (Operand (upTo n)).Recovers Expr.bare (Expr.new i es s).words (.new i es s) fun _ => True := by
  intro tokens next htokens _
  obtain ⟨first, rest, rfl, hfirst, _, hrest⟩ := exists_cons_of_words htokens
  obtain ⟨name, others, rfl, hname, hvalue, hothers⟩ := exists_cons_of_words hrest
  obtain ⟨bs, hbs, hbares⟩ := recovers_arguments h hshaped hwritable hn others next hothers trivial
  exact ⟨_, .new hfirst hname hbs, by simp [Expr.bare, Ident.bare, hbares, hvalue, Ident.word]⟩

theorem recovered_number (value : Int) (s : Span) : recovered.expr (.number value s) := by
  intro _ hwritable n _
  rw [Expr.traces, AllWritable.cons_iff] at hwritable
  refine recovers_of_operand rfl ?_
  intro tokens next htokens _
  obtain ⟨first, others, rfl, hfirst, hvalue, hothers⟩ := exists_cons_of_words htokens
  obtain rfl := eq_nil_of_words hothers
  have hnumber : Numeral.value? first.value.toList = some value := by
    rw [hvalue, value?_of_writable hwritable.1]
  exact ⟨_, .literal (.number hfirst hnumber), rfl⟩

theorem recovered_bool (value : Bool) (s : Span) : recovered.expr (.bool value s) := by
  intro _ _ n _
  refine recovers_of_operand rfl ?_
  intro tokens next htokens _
  obtain ⟨first, others, rfl, hfirst, _, hothers⟩ := exists_cons_of_words htokens
  obtain rfl := eq_nil_of_words hothers
  cases value with
  | true => exact ⟨_, .literal (.true hfirst), rfl⟩
  | false => exact ⟨_, .literal (.false hfirst), rfl⟩

theorem recovered_string (value : String) (s : Span) : recovered.expr (.string value s) := by
  intro _ _ n _
  refine recovers_of_operand rfl ?_
  intro tokens next htokens _
  obtain ⟨first, others, rfl, hfirst, hvalue, hothers⟩ := exists_cons_of_words htokens
  obtain rfl := eq_nil_of_words hothers
  exact ⟨_, .literal (.string hfirst), by rw [Expr.bare, hvalue]; rfl⟩

theorem recovered_symbol (name : String) (s : Span) : recovered.expr (.symbol name s) := by
  intro _ _ n _
  apply recovers_of_links
  intro tokens next htokens _
  obtain ⟨first, others, rfl, hfirst, hvalue, hothers⟩ := exists_cons_of_words htokens
  obtain rfl := eq_nil_of_words hothers
  exact ⟨_, .name hfirst, by rw [Expr.bare, hvalue]; rfl⟩

theorem recovered_list {es : List Expr} (s : Span) (hes : ∀ e ∈ es, recovered.expr e) :
    recovered.expr (.list es s) := by
  intro hshaped hwritable n hn
  refine recovers_of_operand rfl ?_
  intro tokens next htokens _
  have helements : Form.Recovers _ _ (bracketed .openBracket .closeBracket _) _ _ :=
    recovers_elements .openBracket hes hshaped hwritable hn rfl (by decide)
  obtain ⟨bs, hbs, hbares⟩ := helements tokens next htokens trivial
  exact ⟨_, .list hbs, by simp [Expr.bare, hbares]⟩

theorem recovered_map {ps : List Pair} (s : Span) (hps : ∀ p ∈ ps, recovered.pair p) :
    recovered.expr (.map ps s) := by
  intro hshaped hwritable n hn
  refine recovers_of_operand rfl ?_
  intro tokens next htokens _
  obtain ⟨bs, hbs, hbares⟩ := recovers_pairs hps hshaped hwritable hn tokens next htokens trivial
  exact ⟨_, .map hbs, by simp [Expr.bare, hbares]⟩

theorem recovered_member {object : Expr} (i : Ident) (s : Span) (hobject : recovered.expr object) :
    recovered.expr (.member object i s) := by
  intro hshaped hwritable n hn
  rw [Expr.shaped, Bool.and_eq_true] at hshaped
  rw [Expr.traces, AllWritable.append_iff] at hwritable
  apply recovers_of_links
  intro tokens next htokens _
  obtain ⟨front, back, rfl, hfront, hback⟩ := exists_append_of_words htokens
  obtain ⟨dot, rest, rfl, hdot, _, hrest⟩ := exists_cons_of_words hback
  obtain ⟨property, others, rfl, hproperty, hvalue, hothers⟩ := exists_cons_of_words hrest
  obtain rfl := eq_nil_of_words hothers
  have hlinks := (hobject hshaped.2 hwritable.1 n hn).2 hshaped.1
  obtain ⟨b, hb, hbare⟩ := hlinks front dot hfront (ne_of_eq_of_ne hdot (by decide))
  exact ⟨_, .member hb hdot hproperty, by simp [Expr.bare, hbare, Ident.bare, hvalue, Ident.word]⟩

theorem recovered_call {callee : Expr} {es : List Expr} (propagate : Bool) (s : Span)
    (hcallee : recovered.expr callee) (hes : ∀ e ∈ es, recovered.expr e) :
    recovered.expr (.call callee es propagate s) := by
  intro hshaped hwritable n hn
  simp only [Expr.shaped, Bool.and_eq_true] at hshaped
  simp only [Expr.traces, AllWritable.append_iff] at hwritable
  rw [Expr.levels, Nat.max_le] at hn
  apply recovers_of_links
  intro tokens next htokens hnext
  obtain ⟨front, back, rfl, hfront, hback⟩ := exists_append_of_words htokens
  obtain ⟨middle, mark, rfl, hmiddle, hmark⟩ := exists_append_of_words hback
  have hlinks := (hcallee hshaped.1.2 hwritable.1 n hn.1).2 hshaped.1.1
  have harguments := recovers_arguments hes hshaped.2 hwritable.2.1 hn.2
  have hopen : ∀ last : Token, (middle.headD last).word.kind ≠ .question := by
    intro last
    exact ne_of_eq_of_ne (kind_headD_of_words hmiddle) (by decide)
  cases propagate with
  | false =>
    obtain rfl := eq_nil_of_words hmark
    obtain ⟨b, hb, hbare⟩ := hlinks front (middle.headD next) hfront (hopen next)
    obtain ⟨bs, hbs, hbares⟩ := harguments middle next hmiddle trivial
    rw [List.append_nil]
    exact ⟨_, .call hb hbs hnext, by simp [Expr.bare, hbare, hbares]⟩
  | true =>
    obtain ⟨last, others, rfl, hlast, _, hothers⟩ := exists_cons_of_words hmark
    obtain rfl := eq_nil_of_words hothers
    obtain ⟨b, hb, hbare⟩ := hlinks front (middle.headD last) hfront (hopen last)
    obtain ⟨bs, hbs, hbares⟩ := harguments middle last hmiddle trivial
    exact ⟨_, .propagate hb hbs hlast, by simp [Expr.bare, hbare, hbares]⟩

theorem recovered_binary {left right : Expr} (op : BinaryOp) (s : Span) (hleft : recovered.expr left)
    (hright : recovered.expr right) : recovered.expr (.binary op left right s) := by
  intro hshaped hwritable n hn
  rw [Expr.shaped, Bool.and_eq_true] at hshaped
  rw [Expr.traces, AllWritable.append_iff] at hwritable
  rw [Expr.levels, Nat.max_le] at hn
  refine recovers_of_expression rfl ?_
  intro tokens next htokens hnext
  obtain ⟨front, back, rfl, hfront, hback⟩ := exists_append_of_words htokens
  obtain ⟨operator, others, rfl, hoperator, _, hothers⟩ := exists_cons_of_words hback
  have hclose : next.kind = .closeParen := hnext
  have hop : BinaryOp.ofToken? operator.kind = some op := by
    rw [hoperator]
    cases op <;> rfl
  have htight : bindsTighter .lowest operator.kind = true := by
    rw [hoperator]
    cases op <;> rfl
  -- A closing parenthesis is no operator, whatever the power of the right operand is.
  have hloose : ∀ power, bindsTighter power next.kind = false := by
    intro power
    rw [hclose]
    cases power <;> rfl
  obtain ⟨b, hb, hbare⟩ :=
    operand_grouped hleft hshaped.1 hwritable.1 hn.1 front operator hfront trivial
  obtain ⟨b', hb', hbare'⟩ :=
    recovers_grouped hright hshaped.2 hwritable.2 hn.2 op.bindingPower others next hothers (hloose _)
  exact ⟨_, .intro (.binary (.operand hb) htight hop hb') (hloose _),
    by simp [Expr.bare, hbare, hbare']⟩

theorem recovered_unary {operand : Expr} (op : UnaryOp) (s : Span) (hoperand : recovered.expr operand) :
    recovered.expr (.unary op operand s) := by
  intro hshaped hwritable n hn
  refine recovers_of_operand rfl ?_
  intro tokens next htokens hnext
  obtain ⟨first, others, rfl, hfirst, _, hothers⟩ := exists_cons_of_words htokens
  have hclose : next.kind = .closeParen := hnext
  have hloose : bindsTighter .unary next.kind = false := by
    rw [hclose]
    rfl
  rw [Expr.shaped] at hshaped
  obtain ⟨b, hb, hbare⟩ := recovers_grouped hoperand hshaped hwritable hn .unary others next hothers hloose
  cases op with
  | negate => exact ⟨_, .negate hfirst hb, by rw [Expr.bare, Expr.bare, hbare]⟩
  | not => exact ⟨_, .not hfirst hb, by rw [Expr.bare, Expr.bare, hbare]⟩

theorem recovered_new {es : List Expr} (i : Ident) (s : Span) (hes : ∀ e ∈ es, recovered.expr e) :
    recovered.expr (.new i es s) := by
  intro hshaped hwritable n hn
  rw [Expr.traces, AllWritable.cons_iff] at hwritable
  refine recovers_of_operand rfl ?_
  exact (recovers_new i s hes hshaped hwritable.2 hn).imp fun _ _ => trivial

theorem recovered_choice {scrutinee : Expr} {arms : List Arm} {fallback? : Option Arm} (s : Span)
    (hscrutinee : recovered.expr scrutinee) (harms : ∀ a ∈ arms, recovered.arm a)
    (hfallback : ∀ a ∈ fallback?, recovered.arm a) :
    recovered.expr (.choice scrutinee arms fallback? s) := by
  intro hshaped hwritable n hn
  simp only [Expr.shaped, Arm.allShaped_eq, Arm.shaped?_eq, Bool.and_eq_true, List.all_eq_true,
    Option.all_eq_true] at hshaped
  simp only [Expr.traces, Arm.tracesAll_eq, Arm.traces?_eq, AllWritable.append_iff,
    AllWritable.flatMap_iff, AllWritable.elim_iff] at hwritable
  simp only [Expr.levels, Nat.max_le, Arm.levelsAll_le, Arm.levels?_le] at hn
  refine recovers_of_operand rfl ?_
  intro tokens next htokens hnext
  simp only [Expr.words, Arm.wordsAll_eq, Arm.words?_eq] at htokens
  obtain ⟨first, rest, rfl, hfirst, _, hrest⟩ := exists_cons_of_words htokens
  obtain ⟨front, back, rfl, hfront, hback⟩ := exists_append_of_words hrest
  obtain ⟨middle, last, rfl, hmiddle, hlast⟩ := exists_append_of_words hback
  have hclose : next.kind = .closeParen := hnext
  have hloose : noOperator next.word := noOperator_of_closeParen hnext
  have hcase : opensCase next.word.kind = false := by rw [Token.word, hclose]; rfl
  have hdefault : next.word.kind ≠ .kwDefault := ne_of_eq_of_ne hclose (by decide)
  have hbehind : noOperator ((middle ++ last).headD next).word := by
    refine follow_headD noOperator hback ?_ hloose
    cases arms <;> cases fallback? <;> simp <;> rfl
  have hbehinds : noOperator (last.headD next).word ∧ opensCase (last.headD next).word.kind = false := by
    refine follow_headD (fun w => noOperator w ∧ opensCase w.kind = false) hlast ?_ ⟨hloose, hcase⟩
    cases fallback? <;> simp
    exact ⟨rfl, rfl⟩
  have harms' := fun a member =>
    harms a member (hshaped.1.2 a member) (hwritable.2.1 a member) n (hn.2.1 a member) .kwCase
  have hfallback' := fun a member =>
    hfallback a member (hshaped.2 a member) (hwritable.2.2 a member) n (hn.2.2 a member) .kwDefault
  obtain ⟨e, he, hbare⟩ :=
    recovers_grouped hscrutinee hshaped.1.1 hwritable.1 hn.1 .lowest front _ hfront hbehind
  obtain ⟨bs, hbs, hbares⟩ :=
    recovers_many harms' (fun a _ => ⟨_, _, rfl, rfl⟩) middle _ hmiddle hbehinds
  obtain ⟨b?, hb, hlastbare⟩ := recovers_clause hfallback' last next hlast ⟨hloose, hdefault⟩
  exact ⟨_, .choice hfirst he hbs hb, by simp [Expr.bare, hbare, hbares, hlastbare]⟩

theorem recovered_lambda {body : Expr} (names : List Ident) (s : Span) (hbody : recovered.expr body) :
    recovered.expr (.lambda names body s) := by
  intro hshaped hwritable n hn
  rw [Expr.traces, AllWritable.append_iff] at hwritable
  rw [Expr.shaped] at hshaped
  refine recovers_of_operand rfl ?_
  intro tokens next htokens hnext
  obtain ⟨first, rest, rfl, hfirst, _, hrest⟩ := exists_cons_of_words htokens
  obtain ⟨front, back, rfl, hfront, hback⟩ := exists_append_of_words hrest
  obtain ⟨arrow, others, rfl, harrow, _, hothers⟩ := exists_cons_of_words hback
  obtain ⟨bs, hbs, hbares⟩ := recovers_parameters names front arrow hfront trivial
  obtain ⟨b, hb, hbare⟩ := recovers_grouped hbody hshaped hwritable.2 hn .lowest others next hothers
    (noOperator_of_closeParen hnext)
  exact ⟨_, .lambda hfirst hbs harrow hb, by rw [Expr.bare, Expr.bare, hbares, hbare]⟩

theorem recovered_anonymous {body : Block} (names : List Ident) (s : Span)
    (hbody : recovered.block body) : recovered.expr (.function names body s) := by
  intro hshaped hwritable n hn
  rw [Expr.traces, AllWritable.append_iff] at hwritable
  rw [Expr.shaped] at hshaped
  refine recovers_of_operand rfl ?_
  intro tokens next htokens _
  obtain ⟨first, rest, rfl, hfirst, _, hrest⟩ := exists_cons_of_words htokens
  obtain ⟨front, back, rfl, hfront, hback⟩ := exists_append_of_words hrest
  obtain ⟨bs, hbs, hbares⟩ := recovers_parameters names front (back.headD next) hfront trivial
  obtain ⟨b, hb, hbare⟩ := hbody hshaped hwritable.2 n hn back next hback trivial
  exact ⟨_, .function hfirst hbs hb, by rw [Expr.bare, Expr.bare, hbares, hbare]⟩

theorem recovered_pair {key value : Expr} (s : Span) (hkey : recovered.expr key)
    (hvalue : recovered.expr value) : recovered.pair ⟨key, value, s⟩ := by
  intro hshaped hwritable n hn tokens next htokens hnext
  rw [Pair.shaped, Bool.and_eq_true] at hshaped
  rw [Pair.traces, AllWritable.append_iff] at hwritable
  rw [Pair.levels, Nat.max_le] at hn
  obtain ⟨front, back, rfl, hfront, hback⟩ := exists_append_of_words htokens
  obtain ⟨colon, others, rfl, hcolon, _, hothers⟩ := exists_cons_of_words hback
  have hloose : noOperator colon.word := by rw [noOperator, Token.word, hcolon]; rfl
  obtain ⟨e, he, hbare⟩ :=
    recovers_grouped hkey hshaped.1 hwritable.1 hn.1 .lowest front colon hfront hloose
  obtain ⟨e', he', hbare'⟩ :=
    recovers_grouped hvalue hshaped.2 hwritable.2 hn.2 .lowest others next hothers hnext
  exact ⟨_, .intro he hcolon he', by rw [Pair.bare, Pair.bare, hbare, hbare']⟩

theorem recovered_arm {pattern : Expr} {body : ArmBody} (s : Span) (hpattern : recovered.expr pattern)
    (hbody : recovered.body body) : recovered.arm ⟨pattern, body, s⟩ := by
  intro hshaped hwritable n hn keyword tokens next htokens hnext
  rw [Arm.shaped, Bool.and_eq_true] at hshaped
  rw [Arm.traces, AllWritable.append_iff] at hwritable
  rw [Arm.levels, Nat.max_le] at hn
  obtain ⟨first, rest, rfl, hfirst, _, hrest⟩ := exists_cons_of_words htokens
  obtain ⟨front, back, rfl, hfront, hback⟩ := exists_append_of_words hrest
  have hbehind : noOperator (back.headD next).word := by
    refine follow_headD noOperator hback ?_ hnext
    cases body with
    | expr value => simp [ArmBody.words]; rfl
    | block body => simp [ArmBody.words, Block.words_eq]; rfl
  obtain ⟨e, he, hbare⟩ :=
    recovers_grouped hpattern hshaped.1 hwritable.1 hn.1 .lowest front _ hfront hbehind
  obtain ⟨b, hb, hbare'⟩ := hbody hshaped.2 hwritable.2 n hn.2 back next hback hnext
  exact ⟨_, .intro hfirst he hb, by rw [Arm.bare, Arm.bare, hbare, hbare']⟩

theorem recovered_exprBody {value : Expr} (hvalue : recovered.expr value) :
    recovered.body (.expr value) := by
  intro hshaped hwritable n hn tokens next htokens hnext
  obtain ⟨arrow, others, rfl, harrow, _, hothers⟩ := exists_cons_of_words htokens
  obtain ⟨e, he, hbare⟩ :=
    recovers_grouped hvalue hshaped hwritable hn .lowest others next hothers hnext
  exact ⟨_, .expr harrow he, by rw [ArmBody.bare, ArmBody.bare, hbare]⟩

theorem recovered_blockBody {body : Block} (hbody : recovered.block body) :
    recovered.body (.block body) := by
  intro hshaped hwritable n hn tokens next htokens _
  obtain ⟨b, hb, hbare⟩ := hbody hshaped hwritable n hn tokens next htokens trivial
  exact ⟨_, .block hb, by rw [ArmBody.bare, ArmBody.bare, hbare]⟩

/-! ## Blocks and statements -/

/-- A chain starts with its name. -/
theorem Expr.words_of_isChain (h : e.isChain = true) :
    ∃ name rest, e.root? = some name ∧ e.words = ⟨.identifier, name⟩ :: rest := by
  fun_induction Expr.isChain e with
  | case1 name s => exact ⟨name, [], rfl, rfl⟩
  | case2 object i s ih =>
    obtain ⟨name, rest, hroot, hwords⟩ := ih h
    exact ⟨name, _, hroot, by rw [Expr.words, hwords, List.cons_append]⟩
  | case3 callee es propagate s ih =>
    obtain ⟨name, rest, hroot, hwords⟩ := ih h
    exact ⟨name, _, hroot, by rw [Expr.words, hwords, List.cons_append]⟩
  | case4 e hsymbol hmember hcall => exact absurd h Bool.false_ne_true

/-- A statement starts with a token that ends the statement in front of it. -/
theorem Stmt.start_words {t : Stmt} (h : t.shaped = true) :
    Word.Start t.words fun w => endsStatement w.kind = true := by
  have hchain : ∀ {e : Expr} {ws : List Word}, e.isChain = true →
      Word.Start (e.words ++ ws) fun w => endsStatement w.kind = true := by
    intro e ws hchain
    obtain ⟨name, rest, _, hwords⟩ := Expr.words_of_isChain hchain
    exact ⟨_, _, by rw [hwords, List.cons_append], rfl⟩
  cases t with
  | expression value s =>
    rw [Stmt.shaped, Bool.and_eq_true] at h
    rw [Stmt.words, ← List.append_nil value.words]
    exact hchain h.1
  | assign target op value s =>
    simp only [Stmt.shaped, Bool.and_eq_true] at h
    exact hchain h.1.1
  | define target value s =>
    simp only [Stmt.shaped, Bool.and_eq_true] at h
    exact hchain h.1.1
  | function definition s =>
    cases definition
    exact ⟨_, _, by rw [Stmt.words, Function.words], rfl⟩
  | imports list s => exact absurd h Bool.false_ne_true
  | _ => exact ⟨_, _, rfl, rfl⟩

theorem recovered_block {ss : List Stmt} (s : Span) (hss : ∀ t ∈ ss, recovered.stmt t) :
    recovered.block ⟨ss, s⟩ := by
  intro hshaped hwritable n hn tokens next htokens _
  simp only [Block.shaped, Stmt.allShaped_eq, List.all_eq_true] at hshaped
  simp only [Block.traces, Stmt.tracesAll_eq, AllWritable.flatMap_iff] at hwritable
  obtain ⟨m, rfl⟩ : ∃ m, n = m + 1 := ⟨n - 1, by rw [Block.levels] at hn; omega⟩
  rw [Block.levels, Nat.add_le_add_iff_right, Stmt.levelsAll_le] at hn
  rw [Block.words, Stmt.wordsAll_eq] at htokens
  obtain ⟨first, rest, rfl, hfirst, _, hrest⟩ := exists_cons_of_words htokens
  obtain ⟨front, back, rfl, hfront, hback⟩ := exists_append_of_words hrest
  obtain ⟨close, others, rfl, hclose, _, hothers⟩ := exists_cons_of_words hback
  obtain rfl := eq_nil_of_words hothers
  have hstatements := fun t member => hss t member (hshaped t member) (hwritable t member) m (hn t member)
  have hbehind : endsStatement close.word.kind = true ∧ insideBraces close.word.kind = false := by
    rw [Token.word, hclose]
    exact ⟨rfl, rfl⟩
  obtain ⟨bs, hbs, hbares⟩ := recovers_many hstatements
    (fun t member => Stmt.start_words (hshaped t member)) front close hfront hbehind
  exact ⟨_, .intro hfirst hbs hclose, by simp [Block.bare, hbares]⟩

theorem recovered_returnValue {value : Expr} (s : Span) (hvalue : recovered.expr value) :
    recovered.stmt (.returnValue value s) := by
  intro hshaped hwritable n hn tokens next htokens hnext
  rw [Stmt.shaped] at hshaped
  obtain ⟨first, others, rfl, hfirst, _, hothers⟩ := exists_cons_of_words htokens
  obtain ⟨e, he, hbare⟩ := recovers_grouped hvalue hshaped hwritable hn .lowest others next hothers
    (unclaimed_of_endsStatement hnext).operator
  exact ⟨_, .returnValue hfirst he, by rw [Stmt.bare, Stmt.bare, hbare]⟩

/-- A block ends the expression in front of it. -/
theorem noOperator_block {b : Block} (h : tokens.map Token.word = b.words ++ ws) :
    noOperator (tokens.headD next).word := by
  rw [Block.words_eq, List.cons_append] at h
  rw [noOperator, Token.word, kind_headD_of_words h]
  rfl

/-- A condition, or whatever else stands in parentheses in front of a block, and the block. -/
theorem recovers_guarded {body : Block} (he : recovered.expr e) (hbody : recovered.block body)
    (hshaped : e.shaped = true ∧ body.shaped = true)
    (hwritable : AllWritable e.traces ∧ AllWritable body.traces)
    (hn : e.levels + 2 ≤ n ∧ body.levels ≤ n)
    (htokens : tokens.map Token.word = grouped e.words ++ body.words) :
    ∃ front back c b, tokens = front ++ back ∧ (upTo n).expr .lowest front (back.headD next) c
      ∧ (upTo n).block back next b ∧ c.bare = e.bare ∧ b.bare = body.bare := by
  obtain ⟨front, back, rfl, hfront, hback⟩ := exists_append_of_words htokens
  obtain ⟨c, hc, hbare⟩ := recovers_grouped he hshaped.1 hwritable.1 hn.1 .lowest front
    (back.headD next) hfront (noOperator_block (by rw [hback, List.append_nil]))
  obtain ⟨b, hb, hbare'⟩ := hbody hshaped.2 hwritable.2 n hn.2 back next hback trivial
  exact ⟨front, back, c, b, rfl, hc, hb, hbare, hbare'⟩

theorem recovered_whileLoop {condition : Expr} {body : Block} (s : Span)
    (hcondition : recovered.expr condition) (hbody : recovered.block body) :
    recovered.stmt (.whileLoop condition body s) := by
  intro hshaped hwritable n hn tokens next htokens _
  rw [Stmt.shaped, Bool.and_eq_true] at hshaped
  rw [Stmt.traces, AllWritable.append_iff] at hwritable
  rw [Stmt.levels, Nat.max_le] at hn
  obtain ⟨first, rest, rfl, hfirst, _, hrest⟩ := exists_cons_of_words htokens
  obtain ⟨front, back, c, b, rfl, hc, hb, hbare, hbare'⟩ :=
    recovers_guarded hcondition hbody hshaped hwritable hn hrest
  exact ⟨_, .whileLoop hfirst hc hb, by rw [Stmt.bare, Stmt.bare, hbare, hbare']⟩

theorem recovered_forLoop {iterable : Expr} {body : Block} (i : Ident) (s : Span)
    (hiterable : recovered.expr iterable) (hbody : recovered.block body) :
    recovered.stmt (.forLoop i iterable body s) := by
  intro hshaped hwritable n hn tokens next htokens _
  rw [Stmt.shaped, Bool.and_eq_true] at hshaped
  rw [Stmt.traces, AllWritable.cons_iff, AllWritable.append_iff] at hwritable
  rw [Stmt.levels, Nat.max_le] at hn
  obtain ⟨first, behind, rfl, hfirst, _, hbehind⟩ := exists_cons_of_words htokens
  obtain ⟨name, middle, rfl, hname, hvalue, hmiddle⟩ := exists_cons_of_words hbehind
  obtain ⟨word, rest, rfl, hword, _, hrest⟩ := exists_cons_of_words hmiddle
  obtain ⟨front, back, c, b, rfl, hc, hb, hbare, hbare'⟩ :=
    recovers_guarded hiterable hbody hshaped hwritable.2 hn hrest
  exact ⟨_, .forLoop hfirst hname hword hc hb, by
    simp [Stmt.bare, Ident.bare, hbare, hbare', hvalue, Ident.word]⟩

theorem recovered_branch {condition : Expr} {body : Block} (s : Span)
    (hcondition : recovered.expr condition) (hbody : recovered.block body) :
    recovered.branch ⟨condition, body, s⟩ := by
  intro hshaped hwritable n hn tokens next htokens _
  rw [Branch.shaped, Bool.and_eq_true] at hshaped
  rw [Branch.traces, AllWritable.append_iff] at hwritable
  rw [Branch.levels, Nat.max_le] at hn
  obtain ⟨first, rest, rfl, hfirst, _, hrest⟩ := exists_cons_of_words htokens
  obtain ⟨front, back, c, b, rfl, hc, hb, hbare, hbare'⟩ :=
    recovers_guarded hcondition hbody hshaped hwritable hn hrest
  exact ⟨_, .intro hfirst hc hb, by rw [Branch.bare, Branch.bare, hbare, hbare']⟩

theorem recovers_otherwise {b : Block} (h : recovered.block b) (hshaped : b.shaped = true)
    (hwritable : AllWritable b.traces) (hn : b.levels ≤ n) :
    (Otherwise (upTo n)).Recovers Block.bare (TokenKind.kwElse.word :: b.words) b fun _ => True := by
  intro tokens next htokens _
  obtain ⟨first, others, rfl, hfirst, _, hothers⟩ := exists_cons_of_words htokens
  obtain ⟨b', hb, hbare⟩ := h hshaped hwritable n hn others next hothers trivial
  exact ⟨b', .intro hfirst hb, hbare⟩

theorem recovered_conditional {condition : Expr} {body : Block} {elifs : List Branch}
    {otherwise? : Option Block} (s : Span) (hcondition : recovered.expr condition)
    (hbody : recovered.block body) (helifs : ∀ b ∈ elifs, recovered.branch b)
    (hotherwise : ∀ b ∈ otherwise?, recovered.block b) :
    recovered.stmt (.conditional condition body elifs otherwise? s) := by
  intro hshaped hwritable n hn tokens next htokens hnext
  simp only [Stmt.shaped, Branch.allShaped_eq, Block.shaped?_eq, Bool.and_eq_true, List.all_eq_true,
    Option.all_eq_true] at hshaped
  simp only [Stmt.traces, Branch.tracesAll_eq, Block.traces?_eq, AllWritable.append_iff,
    AllWritable.flatMap_iff, AllWritable.elim_iff] at hwritable
  simp only [Stmt.levels, Nat.max_le, Branch.levelsAll_le, Block.levels?_le] at hn
  simp only [Stmt.words, Branch.wordsAll_eq, Block.otherwise?_eq] at htokens
  have hfree := unclaimed_of_endsStatement hnext
  obtain ⟨first, behind, rfl, hfirst, _, hbehind⟩ := exists_cons_of_words htokens
  obtain ⟨front, others, rfl, hfront, hothers⟩ := exists_append_of_words hbehind
  obtain ⟨middle, back, rfl, hmiddle, hback⟩ := exists_append_of_words hothers
  obtain ⟨branches, rest, rfl, hbranches, hrest⟩ := exists_append_of_words hback
  have hstop : True ∧ opensBranch (rest.headD next).word.kind = false := by
    refine ⟨trivial, follow_headD (fun w => opensBranch w.kind = false) hrest ?_ hfree.branch⟩
    cases otherwise? <;> simp
    rfl
  have hbranches' : ∀ b ∈ elifs, (Elif (upTo n)).Recovers Branch.bare b.words b fun _ => True :=
    fun b member => helifs b member (hshaped.1.2 b member) (hwritable.2.2.1 b member) n (hn.2.1 b member)
  have hlast' := fun b member =>
    recovers_otherwise (hotherwise b member) (hshaped.2 b member) (hwritable.2.2.2 b member) (hn.2.2 b member)
  have hstart : ∀ b ∈ elifs, Word.Start b.words fun _ => True := by
    intro b _
    cases b
    exact ⟨_, _, by rw [Branch.words], trivial⟩
  obtain ⟨e, he, hbare⟩ := recovers_grouped hcondition hshaped.1.1.1 hwritable.1 hn.1.1 .lowest front
    ((middle ++ (branches ++ rest)).headD next) hfront (noOperator_block hothers)
  obtain ⟨b, hb, hbare'⟩ := hbody hshaped.1.1.2 hwritable.2.1 n hn.1.2 middle
    ((branches ++ rest).headD next) hmiddle trivial
  obtain ⟨bs, hbs, hbares⟩ := recovers_many hbranches' hstart branches _ hbranches hstop
  obtain ⟨b?, hb?, hlastbare⟩ := recovers_clause hlast' rest next hrest ⟨trivial, hfree.otherwise⟩
  exact ⟨_, .conditional hfirst he hb hbs hb?, by simp [Stmt.bare, hbare, hbare', hbares, hlastbare]⟩

theorem recovered_breakLoop (s : Span) : recovered.stmt (.breakLoop s) := by
  intro _ _ n _ tokens next htokens _
  obtain ⟨first, others, rfl, hfirst, _, hothers⟩ := exists_cons_of_words htokens
  obtain rfl := eq_nil_of_words hothers
  exact ⟨_, .breakLoop hfirst, rfl⟩

theorem recovered_continueLoop (s : Span) : recovered.stmt (.continueLoop s) := by
  intro _ _ n _ tokens next htokens _
  obtain ⟨first, others, rfl, hfirst, _, hothers⟩ := exists_cons_of_words htokens
  obtain rfl := eq_nil_of_words hothers
  exact ⟨_, .continueLoop hfirst, rfl⟩

theorem recovered_native (i : Ident) (symbol : String) (s : Span) :
    recovered.stmt (.native i symbol s) := by
  intro _ _ n _ tokens next htokens _
  obtain ⟨first, behind, rfl, hfirst, _, hbehind⟩ := exists_cons_of_words htokens
  obtain ⟨name, back, rfl, hname, hvalue, hback⟩ := exists_cons_of_words hbehind
  obtain ⟨arrow, rest, rfl, harrow, _, hrest⟩ := exists_cons_of_words hback
  obtain ⟨text, others, rfl, htext, hvalue', hothers⟩ := exists_cons_of_words hrest
  obtain rfl := eq_nil_of_words hothers
  exact ⟨_, .native hfirst hname harrow htext, by simp [Stmt.bare, Ident.bare, hvalue, hvalue', Ident.word]⟩

/-- A block contains no imports. -/
theorem recovered_imports (list : List Import) (s : Span) : recovered.stmt (.imports list s) :=
  fun hshaped => absurd hshaped Bool.false_ne_true

theorem recovered_expression {value : Expr} (s : Span) (hvalue : recovered.expr value) :
    recovered.stmt (.expression value s) := by
  intro hshaped hwritable n hn tokens next htokens hnext
  rw [Stmt.shaped, Bool.and_eq_true] at hshaped
  have hfree := unclaimed_of_endsStatement hnext
  have hlinks := (hvalue hshaped.2 hwritable n hn).2 hshaped.1
  obtain ⟨e, he, hbare⟩ := recovers_chain hlinks tokens next htokens ⟨hfree.question, hfree.link⟩
  exact ⟨_, .expression he hfree.define hfree.assign, by rw [Stmt.bare, Stmt.bare, hbare]⟩

/-- The target and the value of an assignment or a definition, whatever the mark between them is. -/
theorem recovers_marked {target value : Expr} {mark : TokenKind} (htarget : recovered.expr target)
    (hvalue : recovered.expr value)
    (hshaped : (target.isChain = true ∧ target.shaped = true) ∧ value.shaped = true)
    (hwritable : AllWritable target.traces ∧ AllWritable value.traces)
    (hn : target.levels ≤ n ∧ value.levels + 2 ≤ n)
    (hmark : mark.word.kind ≠ .question ∧ opensLink mark.word.kind = false)
    (htokens : tokens.map Token.word = target.words ++ mark.word :: grouped value.words)
    (hnext : noOperator next.word) :
    ∃ front token others t v, tokens = front ++ token :: others ∧ token.kind = mark
      ∧ Chain (upTo n) front token t ∧ (upTo n).expr .lowest others next v
      ∧ t.bare = target.bare ∧ v.bare = value.bare := by
  obtain ⟨front, back, rfl, hfront, hback⟩ := exists_append_of_words htokens
  obtain ⟨token, others, rfl, hkind, hword, hothers⟩ := exists_cons_of_words hback
  have hlinks := (htarget hshaped.1.2 hwritable.1 n hn.1).2 hshaped.1.1
  obtain ⟨t, ht, hbare⟩ := recovers_chain hlinks front token hfront (by rwa [Token.word, hkind])
  obtain ⟨v, hv, hbare'⟩ :=
    recovers_grouped hvalue hshaped.2 hwritable.2 hn.2 .lowest others next hothers hnext
  exact ⟨front, token, others, t, v, rfl, hkind, ht, hv, hbare, hbare'⟩

theorem recovered_assign {target value : Expr} (op : AssignOp) (s : Span)
    (htarget : recovered.expr target) (hvalue : recovered.expr value) :
    recovered.stmt (.assign target op value s) := by
  intro hshaped hwritable n hn tokens next htokens hnext
  simp only [Stmt.shaped, Bool.and_eq_true] at hshaped
  rw [Stmt.traces, AllWritable.append_iff] at hwritable
  rw [Stmt.levels, Nat.max_le] at hn
  have hmark : op.token.word.kind ≠ .question ∧ opensLink op.token.word.kind = false := by
    cases op <;> decide
  obtain ⟨front, token, others, t, v, rfl, hkind, ht, hv, hbare, hbare'⟩ :=
    recovers_marked htarget hvalue hshaped hwritable hn hmark htokens
      (unclaimed_of_endsStatement hnext).operator
  have hop : AssignOp.ofToken? token.kind = some op := by
    rw [hkind]
    cases op <;> rfl
  exact ⟨_, .assign ht hop hv, by rw [Stmt.bare, Stmt.bare, hbare, hbare']⟩

theorem recovered_define {target value : Expr} (s : Span) (htarget : recovered.expr target)
    (hvalue : recovered.expr value) : recovered.stmt (.define target value s) := by
  intro hshaped hwritable n hn tokens next htokens hnext
  simp only [Stmt.shaped, Bool.and_eq_true] at hshaped
  rw [Stmt.traces, AllWritable.append_iff] at hwritable
  rw [Stmt.levels, Nat.max_le] at hn
  obtain ⟨front, token, others, t, v, rfl, hkind, ht, hv, hbare, hbare'⟩ :=
    recovers_marked htarget hvalue hshaped hwritable hn (by decide) htokens
      (unclaimed_of_endsStatement hnext).operator
  exact ⟨_, .define ht hkind hv, by rw [Stmt.bare, Stmt.bare, hbare, hbare']⟩

theorem recovered_nested {definition : Function} (s : Span)
    (hdefinition : recovered.function definition) : recovered.stmt (.function definition s) := by
  intro hshaped hwritable n hn tokens next htokens hnext
  rw [Stmt.shaped] at hshaped
  have hfree := unclaimed_of_endsStatement hnext
  obtain ⟨f, hf, hbare⟩ := hdefinition hshaped hwritable n hn tokens next htokens
    ⟨hfree.parameters, hfree.body⟩
  exact ⟨_, .function hf, by rw [Stmt.bare, Stmt.bare, hbare]⟩

/-- The body of a definition, which may be missing. -/
theorem recovers_body? {b? : Option Block} (h : ∀ b ∈ b?, recovered.block b)
    (hshaped : Block.shaped? b? = true) (hwritable : AllWritable (Block.traces? b?))
    (hn : Block.levels? b? ≤ n) :
    (Clause .openCurly (upTo n).block).Recovers (Option.map Block.bare) (Block.words? b?) b?
      fun w => w.kind ≠ .openCurly := by
  rw [Block.shaped?_eq, Option.all_eq_true] at hshaped
  rw [Block.traces?_eq, AllWritable.elim_iff] at hwritable
  rw [Block.levels?_le] at hn
  rw [Block.words?_eq]
  have hblock := fun b member => h b member (hshaped b member) (hwritable b member) n (hn b member)
  exact (recovers_clause hblock).imp fun _ hw => ⟨trivial, hw⟩

/-- The parameters of a definition, which may be missing. -/
theorem recovers_parameters? (names? : Option (List Ident)) :
    (Clause .openParen Parameters).Recovers (Option.map (List.map Ident.bare))
      (names?.elim [] parameters) names? fun w => w.kind ≠ .openParen :=
  (recovers_clause fun names _ => recovers_parameters names).imp fun _ hw => ⟨trivial, hw⟩

/-- The words of a body that may be missing start with a brace. -/
theorem kind_words? {b? : Option Block} : ∀ w ∈ (Block.words? b?).head?, w.kind = .openCurly := by
  cases b? with
  | none => simp [Block.words?]
  | some b => simp [Block.words_eq, TokenKind.word]

theorem recovered_function {body? : Option Block} (i : Ident) (names? : Option (List Ident)) (s : Span)
    (hbody : ∀ b ∈ body?, recovered.block b) : recovered.function ⟨i, names?, body?, s⟩ := by
  intro hshaped hwritable n hn tokens next htokens hnext
  simp only [Function.traces, AllWritable.cons_iff, AllWritable.append_iff] at hwritable
  obtain ⟨first, behind, rfl, hfirst, _, hbehind⟩ := exists_cons_of_words htokens
  obtain ⟨name, rest, rfl, hname, hvalue, hrest⟩ := exists_cons_of_words hbehind
  obtain ⟨front, back, rfl, hfront, hback⟩ := exists_append_of_words hrest
  -- Without parameters, no parenthesis may follow: neither the body nor the next token is one.
  have hopen : (back.headD next).word.kind ≠ .openParen := by
    refine follow_headD (·.kind ≠ .openParen) hback ?_ hnext.1
    intro w hw
    rw [kind_words? w hw]
    decide
  obtain ⟨ps?, hps, hbares⟩ := recovers_parameters? names? front (back.headD next) hfront hopen
  obtain ⟨b?, hb, hbares'⟩ := recovers_body? hbody hshaped hwritable.2.2 hn back next hback hnext.2
  exact ⟨_, .intro hfirst hname hps hb, by
    simp [Function.bare, Ident.bare, hvalue, Ident.word, hbares', hbares]⟩

theorem recovered_hereditary : recovered.Hereditary where
  number := recovered_number
  bool := recovered_bool
  string := recovered_string
  symbol := recovered_symbol
  list := recovered_list
  map := recovered_map
  member := recovered_member
  call := recovered_call
  binary := recovered_binary
  unary := recovered_unary
  new := recovered_new
  choice := recovered_choice
  lambda := recovered_lambda
  anonymous := recovered_anonymous
  pair := recovered_pair
  arm := recovered_arm
  exprBody := recovered_exprBody
  blockBody := recovered_blockBody
  block := recovered_block
  returnValue := recovered_returnValue
  whileLoop := recovered_whileLoop
  conditional := recovered_conditional
  forLoop := recovered_forLoop
  breakLoop := recovered_breakLoop
  continueLoop := recovered_continueLoop
  expression := recovered_expression
  native := recovered_native
  imports := recovered_imports
  assign := recovered_assign
  define := recovered_define
  nested := recovered_nested
  branch := recovered_branch
  function := recovered_function

end WattFront
