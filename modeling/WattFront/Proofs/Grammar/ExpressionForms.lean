import WattFront.Proofs.Grammar.Repetition

/-! # The readings of expressions have their forms

Every reading of this file is given how the expressions and blocks inside it are read. If those have
their forms, so does the reading: `accepts_chain`, `accepts_operand` and `accepts_expression` are the
results, and the lemmas in front of them say the same of one kind of operand each.
-/

namespace WattFront

open Grammar Spelling Reading

/-- The expressions and blocks inside a construct are read in their forms, and one token decides that
they are there. -/
structure Grammar.Inner.Spells (g : Grammar.Inner) (forms : Spelling.Inner) (levels : Nat) : Prop where
  expr : ∀ power, (g.expr power).Accepts levels (forms.expr power)
  block : g.block.Accepts levels forms.block
  exprOpens : ∀ power, (forms.expr power).Opens (·.operandForm?.isSome)
  blockOpens : forms.block.Opens (· = .openCurly)

theorem Form.Opens.imp {α : Type} {form : Form α} {p q : TokenKind → Prop} (h : form.Opens p)
    (himp : ∀ kind, p kind → q kind) : form.Opens q := by
  intro tokens next a hform
  obtain ⟨first, others, htokens, hfirst⟩ := h hform
  exact ⟨first, others, htokens, himp _ hfirst⟩

namespace Grammar

variable {g : Grammar.Inner} {forms : Spelling.Inner} {levels : Nat} {c d : Cursor} {e : Expr}

/-- A closing bracket opens no operand. -/
theorem Inner.Spells.notClosed (h : g.Spells forms levels) (power : BindingPower) {closing : TokenKind}
    (hclosing : closing.operandForm? = none) : (forms.expr power).Opens (· ≠ closing) := by
  apply (h.exprOpens power).imp
  intro kind hkind heq
  simp [heq, hclosing] at hkind

theorem literal_kinds {kind : TokenKind} (h : kind.operandForm? = some .literal) :
    kind = .number ∨ kind = .string ∨ kind = .kwTrue ∨ kind = .kwFalse := by
  cases kind <;> simp_all [TokenKind.operandForm?]

theorem accepts_literal : literal.AcceptsAt (·.operandForm? = some .literal) levels Literal := by
  intro c hguard _ e d
  constructor
  · intro hdone
    have hend : c.kind ≠ .endOfInput := by
      intro hkind
      simp [hkind, TokenKind.operandForm?] at hguard
    rw [literal, cursor_bind] at hdone
    rcases literal_kinds hguard with hkind | hkind | hkind | hkind
    · simp only [show c.current.kind = .number from hkind] at hdone
      cases hvalue : Numeral.value? c.current.value.toList with
      | none => simp [hvalue, badNumeral, not_fail_eq_done] at hdone
      | some value =>
        simp only [hvalue] at hdone
        obtain ⟨rfl, rfl⟩ := pure_eq_done.1 hdone
        exact ⟨_, .next c hend, .number hkind hvalue⟩
    · simp only [show c.current.kind = .string from hkind] at hdone
      obtain ⟨rfl, rfl⟩ := pure_eq_done.1 hdone
      exact ⟨_, .next c hend, .string hkind⟩
    · simp only [show c.current.kind = .kwTrue from hkind] at hdone
      obtain ⟨rfl, rfl⟩ := pure_eq_done.1 hdone
      exact ⟨_, .next c hend, .true hkind⟩
    · simp only [show c.current.kind = .kwFalse from hkind] at hdone
      obtain ⟨rfl, rfl⟩ := pure_eq_done.1 hdone
      exact ⟨_, .next c hend, .false hkind⟩
  · rintro ⟨tokens, hpass, hform⟩
    rw [literal, cursor_bind]
    cases hform with
    | number hkind hvalue =>
      obtain rfl := hpass.next_eq
      rw [show c.current = _ from hpass.current]
      simp only [List.headD_cons, hkind, hvalue]
      rfl
    | string hkind | true hkind | false hkind =>
      obtain rfl := hpass.next_eq
      rw [show c.current = _ from hpass.current]
      simp only [List.headD_cons, hkind]
      rfl

/-! ## Chains -/

theorem accepts_arguments (h : g.Spells forms levels) :
    (arguments g).Accepts levels (Arguments forms) :=
  accepts_bracketed rfl rfl (h.notClosed _ rfl) (h.expr _)

theorem link_eq_done_iff (h : g.Spells forms levels) (room : c.depth + levels ≤ maxNesting)
    {start : Position} {object : Expr} :
    link g start object c = .done e d ↔
      (∃ dot property, c.Passes [dot, property] d ∧ dot.kind = .dot ∧ property.kind = .identifier
        ∧ e = .member object ⟨property.value, property.span⟩ (d.spanFrom start)) ∨
      (∃ tokens arguments, c.Passes tokens d ∧ Arguments forms tokens d.current arguments
        ∧ d.kind ≠ .question ∧ e = .call object arguments false (d.spanFrom start)) ∨
      (∃ tokens mark arguments, c.Passes (tokens ++ [mark]) d ∧ Arguments forms tokens mark arguments
        ∧ mark.kind = .question ∧ e = .call object arguments true (d.spanFrom start)) := by
  rw [link, accept_bind]
  split
  · next hkind =>
    have hdot := Cursor.Passes.next c (by simp [hkind])
    simp only [if_true]
    rw [identifier_bind_iff]
    constructor
    · rintro ⟨property, c₁, hproperty, hident, hdone⟩
      obtain ⟨rfl, rfl⟩ := spanFrom_pure_eq_done.1 hdone
      exact .inl ⟨_, property, hdot.cons hproperty, hkind, hident, rfl⟩
    · intro hlink
      rcases hlink with ⟨dot, property, hpass, _, hident, rfl⟩ | ⟨_, _, hpass, ⟨hopen, _⟩, _⟩
        | ⟨_, _, _, hpass, ⟨hopen, _⟩, _⟩
      · obtain ⟨c₁, hfirst, hproperty⟩ := hpass.uncons
        obtain rfl := hfirst.next_eq
        exact ⟨property, d, hproperty, hident, spanFrom_pure_eq_done.2 ⟨rfl, rfl⟩⟩
      · exact absurd (hpass.kind.symm.trans hkind) (by simp [hopen])
      · exact absurd (hpass.kind.symm.trans hkind) (by simp [hopen])
  · -- No dot: the token behind the arguments says which of the two calls it is.
    next hkind =>
    simp only [Bool.false_eq_true, if_false]
    rw [(accepts_arguments h).bind_iff room]
    constructor
    · rintro ⟨tokens, arguments, c₁, hpass, harguments, hdone⟩
      rw [accept_bind] at hdone
      split at hdone
      · next hmark =>
        have hnext := Cursor.Passes.next c₁ (by simp [hmark])
        obtain ⟨rfl, rfl⟩ := spanFrom_pure_eq_done.1 hdone
        exact .inr (.inr ⟨tokens, _, arguments, hpass.trans hnext, harguments, hmark, rfl⟩)
      · next hmark =>
        obtain ⟨rfl, rfl⟩ := spanFrom_pure_eq_done.1 hdone
        exact .inr (.inl ⟨tokens, arguments, hpass, harguments, hmark, rfl⟩)
    · intro hlink
      rcases hlink with ⟨dot, property, hpass, hdot, _⟩ | ⟨tokens, arguments, hpass, harguments, hmark, rfl⟩
        | ⟨tokens, mark, arguments, hpass, harguments, hmark, rfl⟩
      · exact absurd (hpass.kind.trans hdot) hkind
      · refine ⟨tokens, arguments, d, hpass, harguments, ?_⟩
        rw [accept_bind, if_neg hmark]
        rfl
      · obtain ⟨c₁, hpass, hnext⟩ := hpass.split
        have hcurrent : c₁.current = mark := hnext.current
        refine ⟨tokens, arguments, c₁, hpass, hcurrent ▸ harguments, ?_⟩
        rw [accept_bind, if_pos (hnext.kind.trans hmark)]
        obtain rfl := hnext.next_eq
        rfl

theorem links_ne_nil {tokens : List Token} {next : Token} (h : Links forms tokens next e) :
    tokens ≠ [] := by
  cases h with
  | name => exact List.cons_ne_nil _ _
  | member => simp
  | call _ harguments =>
    obtain ⟨-, -⟩ := harguments
    simp
  | propagate => simp

/-- A link behind some links makes more links. -/
theorem links_of_link (h : g.Spells forms levels) {c₀ : Cursor} {tokens : List Token} {z : Expr}
    (room : c.depth + levels ≤ maxNesting) (hpass : c₀.Passes tokens c)
    (hlinks : Links forms tokens c.current e) (hdone : link g c₀.here e c = .done z d) :
    ∃ tokens, c₀.Passes tokens d ∧ Links forms tokens d.current z := by
  rcases (link_eq_done_iff h room).1 hdone with ⟨dot, property, hlink, hdot, hident, rfl⟩
    | ⟨others, arguments, hlink, harguments, hmark, rfl⟩
    | ⟨others, mark, arguments, hlink, harguments, hmark, rfl⟩
  · rw [(hpass.trans hlink).spanFrom_here (by simp)]
    refine ⟨_, hpass.trans hlink, .member ?_ hdot hident⟩
    rwa [show _ = dot from hlink.current] at hlinks
  · rw [(hpass.trans hlink).spanFrom_here (by simp [links_ne_nil hlinks])]
    refine ⟨_, hpass.trans hlink, .call ?_ harguments hmark⟩
    rwa [hlink.current] at hlinks
  · rw [(hpass.trans hlink).spanFrom_here (by simp)]
    refine ⟨_, hpass.trans hlink, .propagate ?_ harguments hmark⟩
    rwa [hlink.current, headD_append] at hlinks

/-- A run of links behind some links makes more links. -/
theorem links_of_repeats (h : g.Spells forms levels) {c₀ : Cursor} {tokens : List Token} {z : Expr}
    (room : c.depth + levels ≤ maxNesting) (hpass : c₀.Passes tokens c)
    (hlinks : Links forms tokens c.current e)
    (hrun : Repeats opensLink (link g c₀.here) e c z d) :
    ∃ tokens, c₀.Passes tokens d ∧ Chain forms tokens d.current z := by
  induction hrun generalizing tokens with
  | stop hstop => exact ⟨tokens, hpass, .intro hlinks hstop⟩
  | round _ hstep _ ih =>
    obtain ⟨others, hpass', hmore⟩ := links_of_link h room hpass hlinks hstep
    exact ih (hpass'.depth ▸ hpass.depth ▸ room) hpass' hmore

/-- A run behind the last link is the end of a run behind the first name. -/
theorem repeats_of_links (h : g.Spells forms levels) {tokens : List Token} {z : Expr} {f : Cursor}
    (room : c.depth + levels ≤ maxNesting) (hpass : c.Passes tokens d)
    (hlinks : Links forms tokens d.current e) (hrun : Repeats opensLink (link g c.here) e d z f) :
    ∃ name c₁, c.Passes [name] c₁ ∧ name.kind = .identifier
      ∧ Repeats opensLink (link g c.here) (.symbol name.value name.span) c₁ z f := by
  -- By induction on the links: the last one is the round in front of the run.
  generalize hnext : d.current = next at hlinks
  induction hlinks generalizing d with
  | name hkind => exact ⟨_, d, hpass, hkind, hrun⟩
  | @member tokens dot property next object _ hdot hident ih =>
    obtain ⟨c₁, hobject, hlink⟩ := hpass.split
    have hcurrent : c₁.current = dot := hlink.current
    refine ih hobject (.round (by simp [Cursor.kind, hcurrent, opensLink, hdot]) ?_ hrun) hcurrent
    rw [link_eq_done_iff h (hobject.room room), hpass.spanFrom_here (by simp)]
    exact .inl ⟨dot, property, hlink, hdot, hident, rfl⟩
  | @call tokens others next callee arguments hcallee harguments hmark ih =>
    subst hnext
    obtain ⟨c₁, hobject, hlink⟩ := hpass.split
    have hkind : c₁.kind = .openParen := by
      obtain ⟨hopen, _⟩ := harguments
      exact hlink.kind.trans hopen
    refine ih hobject (.round (by simp [opensLink, hkind]) ?_ hrun) hlink.current
    rw [link_eq_done_iff h (hobject.room room),
      hpass.spanFrom_here (by simp [links_ne_nil hcallee])]
    exact .inr (.inl ⟨others, arguments, hlink, harguments, hmark, rfl⟩)
  | @propagate tokens others mark next callee arguments hcallee harguments hmark ih =>
    obtain ⟨c₁, hobject, hlink⟩ := hpass.split
    have hkind : c₁.kind = .openParen := by
      obtain ⟨hopen, _⟩ := harguments
      exact hlink.kind.trans hopen
    have hcurrent : c₁.current = others.headD mark := by
      rw [hlink.current, headD_append, List.headD_cons]
    refine ih hobject (.round (by simp [opensLink, hkind]) ?_ hrun) hcurrent
    rw [link_eq_done_iff h (hobject.room room), hpass.spanFrom_here (by simp)]
    exact .inr (.inr ⟨others, mark, arguments, hlink, harguments, hmark, rfl⟩)

theorem link_consumes (h : g.Spells forms levels) (room : c.depth + levels ≤ maxNesting)
    {start : Position} {object : Expr} (hdone : link g start object c = .done e d) :
    d.ahead.length < c.ahead.length ∧ d.depth + levels ≤ maxNesting := by
  rcases (link_eq_done_iff h room).1 hdone with ⟨_, _, hpass, _⟩ | ⟨_, _, hpass, ⟨_, _⟩, _⟩
    | ⟨_, _, _, hpass, _⟩
  all_goals
    have hlength := hpass.length
    simp only [List.length_cons, List.length_append] at hlength
    exact ⟨by omega, hpass.room room⟩

theorem accepts_chain (h : g.Spells forms levels) : (chain g).Accepts levels (Chain forms) := by
  intro c _ room e d
  have hrun {a z : Expr} {c₁ : Cursor} (room : c₁.depth + levels ≤ maxNesting) :
      whileAt opensLink (link g c.here) a c₁ = .done z d ↔
        Repeats opensLink (link g c.here) a c₁ z d :=
    whileAt_eq_done (·.depth + levels ≤ maxNesting) rfl
      (fun _ _ _ _ room _ hdone => link_consumes h room hdone) room
  rw [chain, here_bind, identifier_bind_iff]
  constructor
  · rintro ⟨name, c₁, hname, hkind, hloop⟩
    rw [hrun (hname.room room)] at hloop
    exact links_of_repeats h (hname.room room) hname (.name hkind) hloop
  · rintro ⟨tokens, hpass, hchain⟩
    obtain ⟨hlinks, hstop⟩ := hchain
    obtain ⟨name, c₁, hname, hkind, hloop⟩ := repeats_of_links h room hpass hlinks (.stop hstop)
    exact ⟨name, c₁, hname, hkind, (hrun (hname.room room)).2 hloop⟩

theorem links_opens : (Links forms).Opens (· = .identifier) := by
  intro tokens next e hlinks
  induction hlinks with
  | name hkind => exact ⟨_, _, rfl, hkind⟩
  | member _ _ _ ih | call _ _ _ ih | propagate _ _ _ ih =>
    obtain ⟨first, others, rfl, hfirst⟩ := ih
    exact ⟨first, _, rfl, hfirst⟩

theorem chain_opens : (Chain forms).Opens (· = .identifier) := by
  intro tokens next e hchain
  obtain ⟨hlinks, _⟩ := hchain
  exact links_opens hlinks

/-! ## Operands -/

theorem signed_eq_done_iff (h : g.Spells forms levels) (room : c.depth + levels ≤ maxNesting)
    (hend : c.kind ≠ .endOfInput) :
    signed g c = .done e d ↔
      ∃ first tokens operand, c.Passes (first :: tokens) d
        ∧ forms.expr .unary tokens d.current operand
        ∧ e = .unary (if first.kind = .not then .not else .negate) operand
            (.cover (first :: tokens)) := by
  rw [signed, advance_bind_iff hend]
  constructor
  · rintro ⟨first, c₁, hfirst, _, hrest⟩
    obtain ⟨tokens, operand, c₂, hpass, hoperand, hdone⟩ :=
      ((h.expr _).bind_iff (hfirst.room room)).1 hrest
    obtain ⟨rfl, rfl⟩ := spanFrom_pure_eq_done.1 hdone
    exact ⟨first, tokens, operand, hfirst.cons hpass, hoperand, by rw [(hfirst.cons hpass).spanFrom]⟩
  · rintro ⟨first, tokens, operand, hpass, hoperand, he⟩
    obtain ⟨c₁, hfirst, htokens⟩ := hpass.uncons
    refine ⟨first, c₁, hfirst, hpass.kind.symm, ?_⟩
    refine ((h.expr _).bind_iff (hfirst.room room)).2 ⟨tokens, operand, d, htokens, hoperand, ?_⟩
    exact spanFrom_pure_eq_done.2 ⟨by rw [hpass.spanFrom, he], rfl⟩

theorem group_eq_done_iff (h : g.Spells forms levels) (room : c.depth + levels ≤ maxNesting) :
    group g c = .done e d ↔
      ∃ first tokens close, c.Passes (first :: (tokens ++ [close])) d ∧ first.kind = .openParen
        ∧ forms.expr .lowest tokens close e ∧ close.kind = .closeParen := by
  rw [group, expect_bind_iff .openParen rfl]
  constructor
  · rintro ⟨first, c₁, hfirst, hopen, hrest⟩
    obtain ⟨tokens, inside, c₂, hpass, hinside, hrest⟩ :=
      ((h.expr _).bind_iff (hfirst.room room)).1 hrest
    obtain ⟨close, c₃, hlast, hclose, hdone⟩ := (expect_bind_iff .closeParen rfl).1 hrest
    obtain ⟨rfl, rfl⟩ := pure_eq_done.1 hdone
    rw [hlast.current] at hinside
    exact ⟨first, tokens, close, hfirst.cons (hpass.trans hlast), hopen, hinside, hclose⟩
  · rintro ⟨first, tokens, close, hpass, hopen, hinside, hclose⟩
    obtain ⟨c₁, hfirst, hrest⟩ := hpass.uncons
    obtain ⟨c₂, htokens, hlast⟩ := hrest.split
    refine ⟨first, c₁, hfirst, hopen, ((h.expr _).bind_iff (hfirst.room room)).2 ?_⟩
    refine ⟨tokens, e, c₂, htokens, by rwa [hlast.current], ?_⟩
    exact (expect_bind_iff .closeParen rfl).2 ⟨close, d, hlast, hclose, rfl⟩

/-- A comma list in brackets, whose value knows the span of the whole. -/
theorem bracketed_eq_done_iff {α : Type} {x : Reading α} {form : Form α} (f : List α → Span → Expr)
    (opening closing : TokenKind) (hopening : opening != .endOfInput)
    (hclosing : closing != .endOfInput) (hopens : form.Opens (· ≠ closing))
    (hx : x.Accepts levels form) (room : c.depth + levels ≤ maxNesting) :
    (do
      let token ← expect opening
      let items ← commaList closing x
      pure (f items (← spanFrom token.span.start)) : Reading Expr) c = .done e d ↔
      ∃ tokens items, c.Passes tokens d ∧ Bracketed opening closing form tokens d.current items
        ∧ e = f items (.cover tokens) := by
  have hlist := accepts_commaList hclosing hopens hx
  rw [expect_bind_iff opening hopening]
  constructor
  · rintro ⟨first, c₁, hfirst, hopen, hrest⟩
    obtain ⟨tokens, items, c₂, hpass, hitems, hdone⟩ := (hlist.bind_iff (hfirst.room room)).1 hrest
    obtain ⟨rfl, rfl⟩ := spanFrom_pure_eq_done.1 hdone
    exact ⟨_, items, hfirst.cons hpass, .intro hopen hitems, by rw [(hfirst.cons hpass).spanFrom]⟩
  · rintro ⟨_, items, hpass, hbracketed, he⟩
    obtain ⟨hopen, hitems⟩ := hbracketed
    obtain ⟨c₁, hfirst, htokens⟩ := hpass.uncons
    refine ⟨_, c₁, hfirst, hopen, (hlist.bind_iff (hfirst.room room)).2 ?_⟩
    refine ⟨_, items, d, htokens, hitems, ?_⟩
    exact spanFrom_pure_eq_done.2 ⟨by rw [hpass.spanFrom, he], rfl⟩

theorem list_eq_done_iff (h : g.Spells forms levels) (room : c.depth + levels ≤ maxNesting) :
    list g c = .done e d ↔
      ∃ tokens elements, c.Passes tokens d
        ∧ Bracketed .openBracket .closeBracket (forms.expr .lowest) tokens d.current elements
        ∧ e = .list elements (.cover tokens) :=
  bracketed_eq_done_iff .list .openBracket .closeBracket rfl rfl (h.notClosed _ rfl) (h.expr _) room

theorem accepts_pair (h : g.Spells forms levels) : (pair g).Accepts levels (Entry forms) := by
  intro c _ room p d
  rw [pair, (h.expr _).bind_iff room]
  constructor
  · rintro ⟨tokens, key, c₁, hkeys, hkey, hrest⟩
    obtain ⟨colon, c₂, hpass, hcolon, hrest⟩ := (expect_bind_iff .colon rfl).1 hrest
    obtain ⟨others, value, c₃, hvalues, hvalue, hdone⟩ :=
      ((h.expr _).bind_iff (hpass.room (hkeys.room room))).1 hrest
    obtain ⟨rfl, rfl⟩ := pure_eq_done.1 hdone
    rw [hpass.current] at hkey
    exact ⟨_, hkeys.trans (hpass.cons hvalues), .intro hkey hcolon hvalue⟩
  · rintro ⟨_, hpass, hentry⟩
    obtain ⟨hkey, hcolon, hvalue⟩ := hentry
    obtain ⟨c₁, hkeys, hrest⟩ := hpass.split
    obtain ⟨c₂, hsign, hvalues⟩ := hrest.uncons
    refine ⟨_, _, c₁, hkeys, by rwa [hsign.current], ?_⟩
    refine (expect_bind_iff .colon rfl).2 ⟨_, c₂, hsign, hcolon, ?_⟩
    exact ((h.expr _).bind_iff (hsign.room (hkeys.room room))).2 ⟨_, _, d, hvalues, hvalue, rfl⟩

theorem entry_opens (h : g.Spells forms levels) : (Entry forms).Opens (·.operandForm?.isSome) := by
  intro tokens next p hentry
  obtain ⟨hkey, _, _⟩ := hentry
  obtain ⟨first, others, rfl, hfirst⟩ := h.exprOpens _ hkey
  exact ⟨first, _, rfl, hfirst⟩

theorem map_eq_done_iff (h : g.Spells forms levels) (room : c.depth + levels ≤ maxNesting) :
    map g c = .done e d ↔
      ∃ tokens pairs, c.Passes tokens d
        ∧ Bracketed .openCurly .closeCurly (Entry forms) tokens d.current pairs
        ∧ e = .map pairs (.cover tokens) := by
  have hnotClosed : (Entry forms).Opens (· ≠ .closeCurly) :=
    (entry_opens h).imp fun kind hkind heq => by simp [heq, TokenKind.operandForm?] at hkind
  exact bracketed_eq_done_iff .map .openCurly .closeCurly rfl rfl hnotClosed (accepts_pair h) room

theorem new_eq_done_iff (h : g.Spells forms levels) (room : c.depth + levels ≤ maxNesting) :
    new g c = .done e d ↔
      ∃ first name tokens arguments, c.Passes (first :: name :: tokens) d ∧ first.kind = .kwNew
        ∧ name.kind = .identifier ∧ Arguments forms tokens d.current arguments
        ∧ e = .new ⟨name.value, name.span⟩ arguments (.cover (first :: name :: tokens)) := by
  rw [new, expect_bind_iff .kwNew rfl]
  constructor
  · rintro ⟨first, c₁, hfirst, hnew, hrest⟩
    obtain ⟨name, c₂, hname, hident, hrest⟩ := identifier_bind_iff.1 hrest
    have hpass := hfirst.cons hname
    obtain ⟨tokens, arguments, c₃, htokens, harguments, hdone⟩ :=
      ((accepts_arguments h).bind_iff (hpass.room room)).1 hrest
    obtain ⟨rfl, rfl⟩ := spanFrom_pure_eq_done.1 hdone
    exact ⟨first, name, tokens, arguments, hpass.trans htokens, hnew, hident, harguments,
      by rw [(hfirst.cons (hname.cons htokens)).spanFrom]⟩
  · rintro ⟨first, name, tokens, arguments, hpass, hnew, hident, harguments, he⟩
    obtain ⟨c₁, hfirst, hrest⟩ := hpass.uncons
    obtain ⟨c₂, hname, htokens⟩ := hrest.uncons
    refine ⟨first, c₁, hfirst, hnew, identifier_bind_iff.2 ⟨name, c₂, hname, hident, ?_⟩⟩
    refine ((accepts_arguments h).bind_iff (hname.room (hfirst.room room))).2
      ⟨tokens, arguments, d, htokens, harguments, ?_⟩
    exact spanFrom_pure_eq_done.2 ⟨by rw [hpass.spanFrom, he], rfl⟩

/-! ## Arms -/

theorem armBody_apply (g : Grammar.Inner) (c : Cursor) :
    armBody g c =
      if c.kind = .arrow then (advance >>= fun _ => ArmBody.expr <$> g.expr .lowest) c
      else if c.kind = .openCurly then (ArmBody.block <$> g.block) c
      else unexpected "`->` or block" c := by
  rw [armBody, kind_bind]
  cases c.kind <;> rfl

theorem accepts_armBody (h : g.Spells forms levels) : (armBody g).Accepts levels (Body forms) := by
  intro c _ room body d
  rw [armBody_apply]
  constructor
  · intro hdone
    split at hdone
    · next hkind =>
      obtain ⟨arrow, c₁, harrow, hfirst, hrest⟩ := (advance_bind_iff (by simp [hkind])).1 hdone
      obtain ⟨e, hvalue, rfl⟩ := map_eq_done.1 hrest
      obtain ⟨tokens, hpass, hform⟩ := (h.expr _ trivial (harrow.room room) _ _).1 hvalue
      exact ⟨_, harrow.cons hpass, .expr (hfirst.trans hkind) hform⟩
    · split at hdone
      · obtain ⟨b, hvalue, rfl⟩ := map_eq_done.1 hdone
        obtain ⟨tokens, hpass, hform⟩ := (h.block trivial room _ _).1 hvalue
        exact ⟨tokens, hpass, .block hform⟩
      · exact absurd hdone not_unexpected_eq_done
  · rintro ⟨tokens, hpass, hbody⟩
    cases hbody with
    | expr harrow hform =>
      obtain ⟨c₁, hfirst, htokens⟩ := hpass.uncons
      have hkind := hpass.kind.trans harrow
      rw [if_pos hkind, advance_bind_iff (by simp [hkind])]
      refine ⟨_, c₁, hfirst, hpass.kind.symm, ?_⟩
      exact map_eq_done.2 ⟨_, (h.expr _ trivial (hfirst.room room) _ _).2 ⟨_, htokens, hform⟩, rfl⟩
    | block hform =>
      obtain ⟨first, others, rfl, hfirst⟩ := h.blockOpens hform
      have hkind := hpass.kind.trans hfirst
      rw [if_neg (by simp [hkind]), if_pos hkind]
      exact map_eq_done.2 ⟨_, (h.block trivial room _ _).2 ⟨_, hpass, hform⟩, rfl⟩

theorem accepts_arm (h : g.Spells forms levels) {keyword : TokenKind}
    (hkind : keyword != .endOfInput) :
    (arm g).AcceptsAt (· = keyword) levels (Case forms keyword) := by
  intro c hguard room a d
  have hend : c.kind ≠ .endOfInput := hguard ▸ bne_iff_ne.1 hkind
  rw [arm, advance_bind_iff hend]
  constructor
  · rintro ⟨first, c₁, hfirst, hkind, hrest⟩
    obtain ⟨tokens, pattern, c₂, htokens, hpattern, hrest⟩ :=
      ((h.expr _).bind_iff (hfirst.room room)).1 hrest
    have hpass := hfirst.cons htokens
    obtain ⟨others, body, c₃, hothers, hbody, hdone⟩ :=
      ((accepts_armBody h).bind_iff (hpass.room room)).1 hrest
    obtain ⟨rfl, rfl⟩ := spanFrom_pure_eq_done.1 hdone
    rw [(hfirst.cons (htokens.trans hothers)).spanFrom]
    rw [hothers.current] at hpattern
    exact ⟨_, hpass.trans hothers, .intro (hkind.trans hguard) hpattern hbody⟩
  · rintro ⟨_, hpass, hcase⟩
    obtain ⟨hkind, hpattern, hbody⟩ := hcase
    obtain ⟨c₁, hfirst, hrest⟩ := hpass.uncons
    obtain ⟨c₂, htokens, hothers⟩ := hrest.split
    refine ⟨_, c₁, hfirst, hpass.kind.symm, ((h.expr _).bind_iff (hfirst.room room)).2 ?_⟩
    refine ⟨_, _, c₂, htokens, by rwa [hothers.current], ?_⟩
    refine ((accepts_armBody h).bind_iff (htokens.room (hfirst.room room))).2
      ⟨_, _, d, hothers, hbody, ?_⟩
    exact spanFrom_pure_eq_done.2 ⟨by rw [hpass.spanFrom], rfl⟩

theorem case_opens {keyword : TokenKind} : (Case forms keyword).Opens (· = keyword) := by
  intro tokens next a hcase
  obtain ⟨hfirst, _, _⟩ := hcase
  exact ⟨_, _, rfl, hfirst⟩

theorem choice_eq_done_iff (h : g.Spells forms levels) (room : c.depth + levels ≤ maxNesting) :
    choice g c = .done e d ↔
      ∃ first tokens others rest scrutinee cases fallback?,
        c.Passes (first :: (tokens ++ (others ++ rest))) d ∧ first.kind = .kwMatch
        ∧ forms.expr .lowest tokens ((others ++ rest).headD d.current) scrutinee
        ∧ Many opensCase (Case forms .kwCase) others (rest.headD d.current) cases
        ∧ Clause .kwDefault (Case forms .kwDefault) rest d.current fallback?
        ∧ e = .choice scrutinee cases fallback?
            (.cover (first :: (tokens ++ (others ++ rest)))) := by
  have hopens : (Case forms .kwCase).Opens (opensCase · = true) :=
    case_opens.imp fun kind hkind => by simp [hkind, opensCase]
  have harm : (arm g).AcceptsAt (· = .kwCase) levels (Case forms .kwCase) := accepts_arm h rfl
  have hmany : (many opensCase (arm g)).Accepts levels _ :=
    accepts_many rfl hopens fun _ hguard room => harm (by simpa [opensCase] using hguard) room
  have hclause : (ifAt .kwDefault (arm g)).Accepts levels _ :=
    accepts_ifAt case_opens (accepts_arm h rfl)
  rw [choice, expect_bind_iff .kwMatch rfl]
  constructor
  · rintro ⟨first, c₁, hfirst, hkind, hrest⟩
    obtain ⟨tokens, scrutinee, c₂, htokens, hscrutinee, hrest⟩ :=
      ((h.expr _).bind_iff (hfirst.room room)).1 hrest
    have hpass := hfirst.cons htokens
    obtain ⟨others, cases, c₃, hothers, hcases, hrest⟩ := (hmany.bind_iff (hpass.room room)).1 hrest
    obtain ⟨rest, fallback?, c₄, hlast, hfallback, hdone⟩ :=
      (hclause.bind_iff (hothers.room (hpass.room room))).1 hrest
    obtain ⟨rfl, rfl⟩ := spanFrom_pure_eq_done.1 hdone
    -- What follows each part is the first token behind it, which the later parts tell.
    have hall := hfirst.cons (htokens.trans (hothers.trans hlast))
    rw [hlast.current] at hcases
    rw [(hothers.trans hlast).current] at hscrutinee
    exact ⟨first, tokens, others, rest, scrutinee, cases, fallback?, hall, hkind, hscrutinee, hcases,
      hfallback, by rw [hall.spanFrom]⟩
  · rintro ⟨first, tokens, others, rest, scrutinee, cases, fallback?, hpass, hkind, hscrutinee, hcases,
      hfallback, he⟩
    obtain ⟨c₁, hfirst, hrest⟩ := hpass.uncons
    obtain ⟨c₂, htokens, hrest⟩ := hrest.split
    obtain ⟨c₃, hothers, hlast⟩ := hrest.split
    have room₂ := htokens.room (hfirst.room room)
    refine ⟨first, c₁, hfirst, hkind, ((h.expr _).bind_iff (hfirst.room room)).2 ?_⟩
    refine ⟨tokens, scrutinee, c₂, htokens, by rwa [hrest.current], ?_⟩
    refine (hmany.bind_iff room₂).2 ⟨others, cases, c₃, hothers, by rwa [hlast.current], ?_⟩
    refine (hclause.bind_iff (hothers.room room₂)).2 ⟨rest, fallback?, d, hlast, hfallback, ?_⟩
    exact spanFrom_pure_eq_done.2 ⟨by rw [hpass.spanFrom, he], rfl⟩

/-! ## Functions without a name -/

theorem lambda_eq_done_iff (h : g.Spells forms levels) (room : c.depth + levels ≤ maxNesting) :
    lambda g c = .done e d ↔
      ∃ first tokens arrow others parameters body,
        c.Passes (first :: (tokens ++ arrow :: others)) d ∧ first.kind = .kwLambda
        ∧ Parameters tokens arrow parameters ∧ arrow.kind = .arrow
        ∧ forms.expr .lowest others d.current body
        ∧ e = .lambda parameters body (.cover (first :: (tokens ++ arrow :: others))) := by
  rw [lambda, expect_bind_iff .kwLambda rfl]
  constructor
  · rintro ⟨first, c₁, hfirst, hkind, hrest⟩
    obtain ⟨tokens, parameters, c₂, htokens, hparameters, hrest⟩ :=
      (accepts_parameters.bind_iff (hfirst.room room)).1 hrest
    obtain ⟨arrow, c₃, hsign, harrow, hrest⟩ := (expect_bind_iff .arrow rfl).1 hrest
    have hpass := hfirst.cons (htokens.trans hsign)
    obtain ⟨others, body, c₄, hothers, hbody, hdone⟩ :=
      ((h.expr _).bind_iff (hpass.room room)).1 hrest
    obtain ⟨rfl, rfl⟩ := spanFrom_pure_eq_done.1 hdone
    have hall := hfirst.cons (htokens.trans (hsign.cons hothers))
    rw [hsign.current] at hparameters
    exact ⟨first, tokens, arrow, others, parameters, body, hall, hkind, hparameters, harrow, hbody,
      by rw [hall.spanFrom]⟩
  · rintro ⟨first, tokens, arrow, others, parameters, body, hpass, hkind, hparameters, harrow, hbody, he⟩
    obtain ⟨c₁, hfirst, hrest⟩ := hpass.uncons
    obtain ⟨c₂, htokens, hrest⟩ := hrest.split
    obtain ⟨c₃, hsign, hothers⟩ := hrest.uncons
    refine ⟨first, c₁, hfirst, hkind, (accepts_parameters.bind_iff (hfirst.room room)).2 ?_⟩
    refine ⟨tokens, parameters, c₂, htokens, by rwa [hsign.current], ?_⟩
    refine (expect_bind_iff .arrow rfl).2 ⟨arrow, c₃, hsign, harrow, ?_⟩
    refine ((h.expr _).bind_iff (hsign.room (htokens.room (hfirst.room room)))).2
      ⟨others, body, d, hothers, hbody, ?_⟩
    exact spanFrom_pure_eq_done.2 ⟨by rw [hpass.spanFrom, he], rfl⟩

theorem anonymousFunction_eq_done_iff (h : g.Spells forms levels)
    (room : c.depth + levels ≤ maxNesting) :
    anonymousFunction g c = .done e d ↔
      ∃ first tokens others parameters body,
        c.Passes (first :: (tokens ++ others)) d ∧ first.kind = .kwFn
        ∧ Parameters tokens (others.headD d.current) parameters
        ∧ forms.block others d.current body
        ∧ e = .function parameters body (.cover (first :: (tokens ++ others))) := by
  rw [anonymousFunction, expect_bind_iff .kwFn rfl]
  constructor
  · rintro ⟨first, c₁, hfirst, hkind, hrest⟩
    obtain ⟨tokens, parameters, c₂, htokens, hparameters, hrest⟩ :=
      (accepts_parameters.bind_iff (hfirst.room room)).1 hrest
    obtain ⟨others, body, c₃, hothers, hbody, hdone⟩ :=
      (h.block.bind_iff (htokens.room (hfirst.room room))).1 hrest
    obtain ⟨rfl, rfl⟩ := spanFrom_pure_eq_done.1 hdone
    have hall := hfirst.cons (htokens.trans hothers)
    rw [hothers.current] at hparameters
    exact ⟨first, tokens, others, parameters, body, hall, hkind, hparameters, hbody,
      by rw [hall.spanFrom]⟩
  · rintro ⟨first, tokens, others, parameters, body, hpass, hkind, hparameters, hbody, he⟩
    obtain ⟨c₁, hfirst, hrest⟩ := hpass.uncons
    obtain ⟨c₂, htokens, hothers⟩ := hrest.split
    refine ⟨first, c₁, hfirst, hkind, (accepts_parameters.bind_iff (hfirst.room room)).2 ?_⟩
    refine ⟨tokens, parameters, c₂, htokens, by rwa [hothers.current], ?_⟩
    refine (h.block.bind_iff (htokens.room (hfirst.room room))).2 ⟨others, body, d, hothers, hbody, ?_⟩
    exact spanFrom_pure_eq_done.2 ⟨by rw [hpass.spanFrom, he], rfl⟩

/-! ## Operands of every kind -/

theorem operand_apply (g : Grammar.Inner) (c : Cursor) {form : OperandForm}
    (hform : c.kind.operandForm? = some form) : operand g c = operandOf g form c := by
  rw [operand, kind_bind, hform]

/-- One constructor of the form for each kind of operand. -/
theorem operand_of_operandOf (h : g.Spells forms levels) (room : c.depth + levels ≤ maxNesting)
    {form : OperandForm} (hform : c.kind.operandForm? = some form)
    (hdone : operandOf g form c = .done e d) :
    ∃ tokens, c.Passes tokens d ∧ Operand forms tokens d.current e := by
  cases form with
  | literal =>
    obtain ⟨tokens, hpass, hliteral⟩ := (accepts_literal hform room _ _).1 hdone
    exact ⟨tokens, hpass, .literal hliteral⟩
  | chain =>
    obtain ⟨tokens, hpass, hchain⟩ := (accepts_chain h trivial room _ _).1 hdone
    exact ⟨tokens, hpass, .chain hchain⟩
  | list =>
    obtain ⟨tokens, elements, hpass, helements, rfl⟩ := (list_eq_done_iff h room).1 hdone
    exact ⟨tokens, hpass, .list helements⟩
  | map =>
    obtain ⟨tokens, pairs, hpass, hpairs, rfl⟩ := (map_eq_done_iff h room).1 hdone
    exact ⟨tokens, hpass, .map hpairs⟩
  | signed =>
    have hend : c.kind ≠ .endOfInput := by
      intro hkind
      simp [hkind, TokenKind.operandForm?] at hform
    obtain ⟨first, tokens, operand, hpass, hoperand, rfl⟩ := (signed_eq_done_iff h room hend).1 hdone
    have hkind : first.kind = .dash ∨ first.kind = .not := by
      rw [hpass.kind] at hform
      revert hform
      cases first.kind <;> simp [TokenKind.operandForm?]
    rcases hkind with hkind | hkind
    · exact ⟨_, hpass, by simpa [hkind] using Operand.negate hkind hoperand⟩
    · exact ⟨_, hpass, by simpa [hkind] using Operand.not hkind hoperand⟩
  | group =>
    obtain ⟨first, tokens, close, hpass, hopen, hexpr, hclose⟩ := (group_eq_done_iff h room).1 hdone
    exact ⟨_, hpass, .group hopen hexpr hclose⟩
  | new =>
    obtain ⟨first, name, tokens, arguments, hpass, hnew, hname, harguments, rfl⟩ :=
      (new_eq_done_iff h room).1 hdone
    exact ⟨_, hpass, .new hnew hname harguments⟩
  | choice =>
    obtain ⟨first, tokens, others, rest, scrutinee, cases, fallback?, hpass, hkind, hscrutinee, hcases,
      hfallback, rfl⟩ := (choice_eq_done_iff h room).1 hdone
    exact ⟨_, hpass, .choice hkind hscrutinee hcases hfallback⟩
  | lambda =>
    obtain ⟨first, tokens, arrow, others, parameters, body, hpass, hkind, hparameters, harrow, hbody,
      rfl⟩ := (lambda_eq_done_iff h room).1 hdone
    exact ⟨_, hpass, .lambda hkind hparameters harrow hbody⟩
  | function =>
    obtain ⟨first, tokens, others, parameters, body, hpass, hkind, hparameters, hbody, rfl⟩ :=
      (anonymousFunction_eq_done_iff h room).1 hdone
    exact ⟨_, hpass, .function hkind hparameters hbody⟩

/-- Each constructor of the form is read by the reading that its first token opens. -/
theorem operand_eq_done (h : g.Spells forms levels) (room : c.depth + levels ≤ maxNesting)
    {tokens : List Token} (hpass : c.Passes tokens d) (hform : Operand forms tokens d.current e) :
    operand g c = .done e d := by
  -- The next token is an index of the form, and in a group it belongs to the form: it is a variable while the
  -- cases are told apart.
  generalize hnext : d.current = next at hform
  cases hform with
  | literal hliteral =>
    subst hnext
    have hkind : c.kind.operandForm? = some .literal := by
      cases hliteral with
      | number hkind | string hkind | true hkind | false hkind =>
        rw [hpass.kind, hkind]
        rfl
    rw [operand_apply g c hkind]
    exact (accepts_literal hkind room _ _).2 ⟨tokens, hpass, hliteral⟩
  | chain hchain =>
    subst hnext
    obtain ⟨first, others, rfl, hfirst⟩ := chain_opens hchain
    rw [operand_apply g c (by rw [hpass.kind, hfirst]; rfl)]
    exact (accepts_chain h trivial room _ _).2 ⟨_, hpass, hchain⟩
  | list helements =>
    subst hnext
    obtain ⟨first, others, rfl, hfirst⟩ := bracketed_opens helements
    rw [operand_apply g c (by rw [hpass.kind, hfirst]; rfl)]
    exact (list_eq_done_iff h room).2 ⟨_, _, hpass, helements, rfl⟩
  | map hpairs =>
    subst hnext
    obtain ⟨first, others, rfl, hfirst⟩ := bracketed_opens hpairs
    rw [operand_apply g c (by rw [hpass.kind, hfirst]; rfl)]
    exact (map_eq_done_iff h room).2 ⟨_, _, hpass, hpairs, rfl⟩
  | negate hfirst hoperand | not hfirst hoperand =>
    subst hnext
    have hkind := hpass.kind.trans hfirst
    rw [operand_apply g c (by rw [hkind]; rfl)]
    exact (signed_eq_done_iff h room (by simp [hkind])).2
      ⟨_, _, _, hpass, hoperand, by simp [hfirst]⟩
  | group hfirst hexpr hclose =>
    rw [operand_apply g c (by rw [hpass.kind, hfirst]; rfl)]
    exact (group_eq_done_iff h room).2 ⟨_, _, _, hpass, hfirst, hexpr, hclose⟩
  | new hfirst hname harguments =>
    subst hnext
    rw [operand_apply g c (by rw [hpass.kind, hfirst]; rfl)]
    exact (new_eq_done_iff h room).2 ⟨_, _, _, _, hpass, hfirst, hname, harguments, rfl⟩
  | choice hfirst hscrutinee hcases hfallback =>
    subst hnext
    rw [operand_apply g c (by rw [hpass.kind, hfirst]; rfl)]
    exact (choice_eq_done_iff h room).2
      ⟨_, _, _, _, _, _, _, hpass, hfirst, hscrutinee, hcases, hfallback, rfl⟩
  | lambda hfirst hparameters harrow hbody =>
    subst hnext
    rw [operand_apply g c (by rw [hpass.kind, hfirst]; rfl)]
    exact (lambda_eq_done_iff h room).2
      ⟨_, _, _, _, _, _, hpass, hfirst, hparameters, harrow, hbody, rfl⟩
  | function hfirst hparameters hbody =>
    subst hnext
    rw [operand_apply g c (by rw [hpass.kind, hfirst]; rfl)]
    exact (anonymousFunction_eq_done_iff h room).2
      ⟨_, _, _, _, _, hpass, hfirst, hparameters, hbody, rfl⟩

theorem accepts_operand (h : g.Spells forms levels) :
    (operand g).Accepts levels (Operand forms) := by
  intro c _ room e d
  constructor
  · intro hdone
    cases hform : c.kind.operandForm? with
    | none =>
      rw [operand, kind_bind, hform] at hdone
      exact absurd hdone not_unexpected_eq_done
    | some form =>
      rw [operand_apply g c hform] at hdone
      exact operand_of_operandOf h room hform hdone
  · rintro ⟨tokens, hpass, hform⟩
    exact operand_eq_done h room hpass hform

/-- One token decides that an operand is there. -/
theorem operand_opens : (Operand forms).Opens (·.operandForm?.isSome) := by
  intro tokens next e hform
  cases hform with
  | literal hliteral => cases hliteral <;> exact ⟨_, _, rfl, by simp [*, TokenKind.operandForm?]⟩
  | chain hchain =>
    obtain ⟨first, others, rfl, hfirst⟩ := chain_opens hchain
    exact ⟨first, others, rfl, by rw [hfirst]; rfl⟩
  | list h | map h =>
    obtain ⟨first, others, rfl, hfirst⟩ := bracketed_opens h
    exact ⟨first, others, rfl, by rw [hfirst]; rfl⟩
  | negate hfirst | not hfirst | group hfirst | new hfirst | choice hfirst | lambda hfirst
  | function hfirst => exact ⟨_, _, rfl, by rw [hfirst]; rfl⟩

/-! ## Operators -/

section

variable {kind : TokenKind} {op : BinaryOp}

/-- An operator binds like the token that spells it. -/
theorem bindingPower_of_ofToken? (hop : BinaryOp.ofToken? kind = some op) :
    kind.bindingPower = op.bindingPower := by
  cases kind <;> cases hop <;> rfl

/-- The tokens that bind are those that spell an operator. -/
theorem bindingPower_eq_lowest_iff : kind.bindingPower = .lowest ↔ BinaryOp.ofToken? kind = none := by
  cases kind <;> decide

/-- The tokens that go on with an expression are those that spell an operator. -/
theorem infixForm?_eq_none_iff : kind.infixForm? = none ↔ BinaryOp.ofToken? kind = none := by
  cases kind <;> decide

theorem infixForm?_of_ofToken? (hop : BinaryOp.ofToken? kind = some op) :
    kind.infixForm? = some .binary := by
  cases hform : kind.infixForm? with
  | none =>
    rw [infixForm?_eq_none_iff, hop] at hform
    cases hform
  | some form =>
    cases form
    rfl

/-- A token that binds tighter than anything spells an operator. -/
theorem exists_operator {power : BindingPower} (h : bindsTighter power kind = true) :
    ∃ op, BinaryOp.ofToken? kind = some op := by
  rw [← Option.ne_none_iff_exists', Ne, ← bindingPower_eq_lowest_iff]
  intro hlowest
  rw [bindsTighter, hlowest, decide_eq_true_iff] at h
  exact Nat.not_lt_zero _ h

end

/-- Where a token spells an operator, the expression goes on with it. -/
theorem nextOperation_eq_operation {op : BinaryOp} (hop : BinaryOp.ofToken? c.kind = some op) (left : Expr) :
    nextOperation g left c = operation g op.bindingPower left c := by
  rw [nextOperation, kind_bind, infixForm?_of_ofToken? hop, bindingPower_of_ofToken? hop]
  rfl

theorem kind_of_bindsTighter {power : BindingPower} (hgo : bindsTighter power c.kind = true) :
    c.kind ≠ .endOfInput := by
  obtain ⟨op, hop⟩ := exists_operator hgo
  intro hkind
  rw [hkind] at hop
  cases hop

theorem nextOperation_eq_done_iff (h : g.Spells forms levels) (room : c.depth + levels ≤ maxNesting)
    {power : BindingPower} (hgo : bindsTighter power c.kind = true) {left : Expr} :
    nextOperation g left c = .done e d ↔
      ∃ operator tokens right op, c.Passes (operator :: tokens) d
        ∧ BinaryOp.ofToken? operator.kind = some op
        ∧ forms.expr op.bindingPower tokens d.current right
        ∧ e = .binary op left right (left.span.through right.span) := by
  obtain ⟨op, hop⟩ := exists_operator hgo
  rw [nextOperation_eq_operation hop, operation, advance_bind_iff (kind_of_bindsTighter hgo)]
  constructor
  · rintro ⟨operator, c₁, hoperator, hkind, hrest⟩
    rw [← hkind] at hop
    rw [hop] at hrest
    obtain ⟨tokens, right, c₂, htokens, hright, hdone⟩ := ((h.expr _).bind_iff (hoperator.room room)).1 hrest
    obtain ⟨rfl, rfl⟩ := pure_eq_done.1 hdone
    exact ⟨operator, tokens, right, op, hoperator.cons htokens, hop, hright, rfl⟩
  · rintro ⟨operator, tokens, right, op', hpass, hop', hright, he⟩
    obtain ⟨c₁, hoperator, htokens⟩ := hpass.uncons
    obtain rfl : op' = op := Option.some.inj (hop'.symm.trans (hpass.kind ▸ hop))
    refine ⟨operator, c₁, hoperator, hpass.kind.symm, ?_⟩
    rw [hop']
    exact ((h.expr _).bind_iff (hoperator.room room)).2 ⟨tokens, right, d, htokens, hright, he ▸ rfl⟩

/-- An operation behind an operand with some operators adds an operator. -/
theorem operated_of_operation (h : g.Spells forms levels) {power : BindingPower} {c₀ : Cursor}
    {tokens : List Token} {z : Expr} (room : c.depth + levels ≤ maxNesting)
    (hpass : c₀.Passes tokens c) (hoperated : Operated forms power tokens c.current e)
    (hgo : bindsTighter power c.kind = true) (hdone : nextOperation g e c = .done z d) :
    ∃ tokens, c₀.Passes tokens d ∧ Operated forms power tokens d.current z := by
  obtain ⟨operator, others, right, op, hothers, hop, hright, rfl⟩ :=
    (nextOperation_eq_done_iff h room hgo).1 hdone
  rw [show _ = operator from hothers.current] at hoperated
  rw [hothers.kind] at hgo
  exact ⟨_, hpass.trans hothers, .binary hoperated hgo hop hright⟩

/-- A run of operations behind an operand with some operators adds operators. -/
theorem operated_of_repeats (h : g.Spells forms levels) {power : BindingPower} {c₀ : Cursor}
    {tokens : List Token} {z : Expr} (room : c.depth + levels ≤ maxNesting)
    (hpass : c₀.Passes tokens c) (hoperated : Operated forms power tokens c.current e)
    (hrun : Repeats (bindsTighter power) (nextOperation g) e c z d) :
    ∃ tokens, c₀.Passes tokens d ∧ Expression forms power tokens d.current z := by
  induction hrun generalizing tokens with
  | stop hstop => exact ⟨tokens, hpass, .intro hoperated hstop⟩
  | round hgo hstep _ ih =>
    obtain ⟨others, hpass', hmore⟩ := operated_of_operation h room hpass hoperated hgo hstep
    exact ih (hpass'.depth ▸ hpass.depth ▸ room) hpass' hmore

/-- A run behind the last operation is the end of a run behind the first operand. -/
theorem repeats_of_operated (h : g.Spells forms levels) {power : BindingPower} {tokens : List Token}
    {z : Expr} {f : Cursor} (room : c.depth + levels ≤ maxNesting) (hpass : c.Passes tokens d)
    (hoperated : Operated forms power tokens d.current e)
    (hrun : Repeats (bindsTighter power) (nextOperation g) e d z f) :
    ∃ tokens a c₁, c.Passes tokens c₁ ∧ Operand forms tokens c₁.current a
      ∧ Repeats (bindsTighter power) (nextOperation g) a c₁ z f := by
  -- By induction on the operations: the last one is the round in front of the run.
  generalize hnext : d.current = next at hoperated
  induction hoperated generalizing d with
  | operand hform => exact ⟨_, _, d, hpass, hnext ▸ hform, hrun⟩
  | @binary tokens operator others next left right op _ htight hop hright ih =>
    subst hnext
    obtain ⟨c₁, hleft, hrest⟩ := hpass.split
    have hcurrent : c₁.current = operator := hrest.current
    have hgo : bindsTighter power c₁.kind = true := by rwa [Cursor.kind, hcurrent]
    refine ih hleft (.round hgo ?_ hrun) hcurrent
    rw [nextOperation_eq_done_iff h (hleft.room room) hgo]
    exact ⟨operator, others, right, op, hrest, hop, hright, rfl⟩

theorem accepts_operations (h : g.Spells forms levels) (power : BindingPower) :
    (operations g power).Accepts levels (Expression forms power) := by
  intro c _ room e d
  have hend : bindsTighter power .endOfInput = false := by
    cases power <;> rfl
  -- A round consumes its operator at least, so the loop is not out of rounds before it stops.
  have hrun {a z : Expr} {c₁ : Cursor} (room : c₁.depth + levels ≤ maxNesting) :
      whileAt (bindsTighter power) (nextOperation g) a c₁ = .done z d ↔
        Repeats (bindsTighter power) (nextOperation g) a c₁ z d := by
    refine whileAt_eq_done (·.depth + levels ≤ maxNesting) hend ?_ room
    intro left c b d room hgo hdone
    obtain ⟨_, _, _, _, hpass, _⟩ :=
      (nextOperation_eq_done_iff h room hgo).1 hdone
    have hlength := hpass.length
    simp only [List.length_cons] at hlength
    exact ⟨by omega, hpass.room room⟩
  rw [operations, (accepts_operand h).bind_iff room]
  constructor
  · rintro ⟨tokens, first, c₁, hpass, hoperand, hloop⟩
    rw [hrun (hpass.room room)] at hloop
    exact operated_of_repeats h (hpass.room room) hpass (.operand hoperand) hloop
  · rintro ⟨tokens, hpass, hexpr⟩
    obtain ⟨hoperated, hstop⟩ := hexpr
    obtain ⟨tokens, first, c₁, hfirst, hoperand, hloop⟩ :=
      repeats_of_operated h room hpass hoperated (.stop hstop)
    exact ⟨tokens, first, c₁, hfirst, hoperand, (hrun (hfirst.room room)).2 hloop⟩

/-- A construct with a level of its own. -/
theorem accepts_within {α : Type} {x : Reading α} {form : Form α} (hx : x.Accepts levels form) :
    (within x).Accepts (levels + 1) form := by
  intro c _ room a d
  have hinside : ({ c with depth := c.depth + 1 } : Cursor).depth + levels ≤ maxNesting := by
    rwa [← Nat.add_right_comm, Nat.add_assoc]
  rw [within_eq_done_iff (by omega)]
  constructor
  · rintro ⟨e, hdone, hleave⟩
    obtain ⟨tokens, hpass, hform⟩ := (hx trivial hinside _ _).1 hdone
    subst hleave
    exact ⟨tokens, hpass.leave, hform⟩
  · rintro ⟨tokens, hpass, hform⟩
    exact ⟨{ d with depth := d.depth + 1 }, (hx trivial hinside _ _).2 ⟨tokens, hpass.enter, hform⟩, rfl⟩

theorem accepts_expression (h : g.Spells forms levels) (power : BindingPower) :
    (expression g power).Accepts (levels + 1) (Expression forms power) :=
  accepts_within (accepts_operations h power)

theorem operated_opens {power : BindingPower} : (Operated forms power).Opens (·.operandForm?.isSome) := by
  intro tokens next e hoperated
  induction hoperated with
  | operand hform => exact operand_opens hform
  | binary _ _ _ _ ih =>
    obtain ⟨first, others, rfl, hfirst⟩ := ih
    exact ⟨first, _, rfl, hfirst⟩

theorem expression_opens {power : BindingPower} : (Expression forms power).Opens (·.operandForm?.isSome) := by
  intro tokens next e hexpr
  obtain ⟨hoperated, -⟩ := hexpr
  exact operated_opens hoperated

end Grammar

end WattFront
