import WattFront.Proofs.Grammar.ExpressionForms

/-! # The readings of statements have their forms

As for expressions: if the expressions and blocks inside a statement are read in their forms, so is the
statement (`accepts_statement`), and so is the block around it (`accepts_block`).
-/

namespace WattFront.Grammar

open Spelling Reading

variable {g : Grammar.Inner} {forms : Spelling.Inner} {levels : Nat} {c d : Cursor} {s : Stmt}

/-! ## Statements that start with a chain -/

/-- The mark behind a target and its value, and the span of the three. -/
theorem marked_eq_done_iff (h : g.Spells forms levels) {tokens : List Token} {c₁ : Cursor}
    (hpass : c.Passes tokens c₁) (room : c.depth + levels ≤ maxNesting) (hend : c₁.kind ≠ .endOfInput)
    {f : Expr → Span → Stmt} :
    (do
      let _ ← advance
      let value ← g.expr .lowest
      pure (f value (← spanFrom c.here)) : Reading Stmt) c₁ = .done s d ↔
      ∃ mark others value, c₁.Passes (mark :: others) d ∧ mark.kind = c₁.kind
        ∧ forms.expr .lowest others d.current value ∧ s = f value (.cover (tokens ++ mark :: others)) := by
  rw [advance_bind_iff hend]
  constructor
  · rintro ⟨mark, c₂, hmark, hkind, hrest⟩
    obtain ⟨others, value, c₃, hothers, hvalue, hdone⟩ :=
      ((h.expr _).bind_iff (hmark.room (hpass.room room))).1 hrest
    obtain ⟨rfl, rfl⟩ := spanFrom_pure_eq_done.1 hdone
    have hall := hpass.trans (hmark.cons hothers)
    exact ⟨mark, others, value, hmark.cons hothers, hkind, hvalue, by rw [hall.spanFrom_here (by simp)]⟩
  · rintro ⟨mark, others, value, hrest, hkind, hvalue, hs⟩
    obtain ⟨c₂, hmark, hothers⟩ := hrest.uncons
    refine ⟨mark, c₂, hmark, hkind, ?_⟩
    refine ((h.expr _).bind_iff (hmark.room (hpass.room room))).2 ⟨others, value, d, hothers, hvalue, ?_⟩
    exact spanFrom_pure_eq_done.2 ⟨by rw [(hpass.trans hrest).spanFrom_here (by simp), hs], rfl⟩

/-- No mark for an assignment is the end of input or the mark for a definition. -/
theorem kind_of_assignOp {kind : TokenKind} {op : AssignOp} (h : AssignOp.ofToken? kind = some op) :
    kind ≠ .endOfInput ∧ kind ≠ .define := by
  constructor
  all_goals
    rintro rfl
    cases h

theorem chainStatement_eq_done_iff (h : g.Spells forms levels) (room : c.depth + levels ≤ maxNesting) :
    chainStatement g c = .done s d ↔
      (∃ tokens mark others target value, c.Passes (tokens ++ mark :: others) d
        ∧ Chain forms tokens mark target ∧ mark.kind = .define
        ∧ forms.expr .lowest others d.current value
        ∧ s = .define target value (.cover (tokens ++ mark :: others))) ∨
      (∃ tokens mark others target op value, c.Passes (tokens ++ mark :: others) d
        ∧ Chain forms tokens mark target ∧ AssignOp.ofToken? mark.kind = some op
        ∧ forms.expr .lowest others d.current value
        ∧ s = .assign target op value (.cover (tokens ++ mark :: others))) ∨
      (∃ tokens target, c.Passes tokens d ∧ Chain forms tokens d.current target
        ∧ d.kind ≠ .define ∧ AssignOp.ofToken? d.kind = none
        ∧ s = .expression target (.cover tokens)) := by
  rw [chainStatement, here_bind, (accepts_chain h).bind_iff room]
  constructor
  · rintro ⟨tokens, target, c₁, hpass, htarget, hrest⟩
    -- The token behind the chain says which of the three statements it is.
    rw [kind_bind] at hrest
    by_cases hdefine : c₁.kind = .define
    · rw [if_pos hdefine, marked_eq_done_iff h hpass room (by simp [hdefine])] at hrest
      obtain ⟨mark, others, value, hmark, hkind, hvalue, hs⟩ := hrest
      rw [hmark.current] at htarget
      exact .inl ⟨tokens, mark, others, target, value, hpass.trans hmark, htarget, hkind.trans hdefine,
        hvalue, hs⟩
    rw [if_neg hdefine] at hrest
    cases hop : AssignOp.ofToken? c₁.kind with
    | none =>
      rw [hop] at hrest
      obtain ⟨rfl, rfl⟩ := spanFrom_pure_eq_done.1 hrest
      obtain ⟨first, others, rfl, _⟩ := chain_opens htarget
      exact .inr (.inr ⟨_, target, hpass, htarget, hdefine, hop, by rw [hpass.spanFrom_here (by simp)]⟩)
    | some op =>
      rw [hop, marked_eq_done_iff h hpass room (kind_of_assignOp hop).1] at hrest
      obtain ⟨mark, others, value, hmark, hkind, hvalue, hs⟩ := hrest
      rw [hmark.current] at htarget
      exact .inr (.inl ⟨tokens, mark, others, target, op, value, hpass.trans hmark, htarget, hkind ▸ hop,
        hvalue, hs⟩)
  · intro hstatement
    rcases hstatement with
      ⟨tokens, mark, others, target, value, hpass, htarget, hdefine, hvalue, hs⟩
      | ⟨tokens, mark, others, target, op, value, hpass, htarget, hop, hvalue, hs⟩
      | ⟨tokens, target, hpass, htarget, hdefine, hop, hs⟩
    · obtain ⟨c₁, htokens, hrest⟩ := hpass.split
      have hkind : c₁.kind = .define := hrest.kind.trans hdefine
      refine ⟨tokens, target, c₁, htokens, by rwa [hrest.current], ?_⟩
      rw [kind_bind, if_pos hkind, marked_eq_done_iff h htokens room (by simp [hkind])]
      exact ⟨mark, others, value, hrest, hrest.kind.symm, hvalue, hs⟩
    · obtain ⟨c₁, htokens, hrest⟩ := hpass.split
      have hop' : AssignOp.ofToken? c₁.kind = some op := hrest.kind ▸ hop
      obtain ⟨hend, hdefine⟩ := kind_of_assignOp hop'
      refine ⟨tokens, target, c₁, htokens, by rwa [hrest.current], ?_⟩
      rw [kind_bind, if_neg hdefine, hop', marked_eq_done_iff h htokens room hend]
      exact ⟨mark, others, value, hrest, hrest.kind.symm, hvalue, hs⟩
    · refine ⟨tokens, target, d, hpass, htarget, ?_⟩
      rw [kind_bind, if_neg hdefine, hop]
      obtain ⟨first, others, rfl, _⟩ := chain_opens htarget
      exact spanFrom_pure_eq_done.2 ⟨by rw [hpass.spanFrom_here (by simp), hs], rfl⟩

/-! ## Statements with a keyword -/

theorem returnValue_eq_done_iff (h : g.Spells forms levels) (room : c.depth + levels ≤ maxNesting) :
    returnValue g c = .done s d ↔
      ∃ first tokens value, c.Passes (first :: tokens) d ∧ first.kind = .kwReturn
        ∧ forms.expr .lowest tokens d.current value
        ∧ s = .returnValue value (.cover (first :: tokens)) := by
  rw [returnValue, expect_bind_iff .kwReturn rfl]
  constructor
  · rintro ⟨first, c₁, hfirst, hkind, hrest⟩
    obtain ⟨tokens, value, c₂, htokens, hvalue, hdone⟩ :=
      ((h.expr _).bind_iff (hfirst.room room)).1 hrest
    obtain ⟨rfl, rfl⟩ := spanFrom_pure_eq_done.1 hdone
    exact ⟨first, tokens, value, hfirst.cons htokens, hkind, hvalue,
      by rw [(hfirst.cons htokens).spanFrom]⟩
  · rintro ⟨first, tokens, value, hpass, hkind, hvalue, hs⟩
    obtain ⟨c₁, hfirst, htokens⟩ := hpass.uncons
    refine ⟨first, c₁, hfirst, hkind, ?_⟩
    refine ((h.expr _).bind_iff (hfirst.room room)).2 ⟨tokens, value, d, htokens, hvalue, ?_⟩
    exact spanFrom_pure_eq_done.2 ⟨by rw [hpass.spanFrom, hs], rfl⟩

/-- A condition with its block behind a first token, and the span of the three. -/
theorem conditioned_eq_done_iff {α : Type} (h : g.Spells forms levels)
    (room : c.depth + levels ≤ maxNesting) {first : Token} {c₀ : Cursor}
    (hfirst : c₀.Passes [first] c) {f : Expr → Block → Span → α} {a : α} :
    (do
      let condition ← g.expr .lowest
      let body ← g.block
      pure (f condition body (← spanFrom first.span.start)) : Reading α) c = .done a d ↔
      ∃ tokens others condition body, c.Passes (tokens ++ others) d
        ∧ forms.expr .lowest tokens (others.headD d.current) condition
        ∧ forms.block others d.current body
        ∧ a = f condition body (.cover (first :: (tokens ++ others))) := by
  rw [(h.expr _).bind_iff room]
  constructor
  · rintro ⟨tokens, condition, c₁, htokens, hcondition, hrest⟩
    obtain ⟨others, body, c₂, hothers, hbody, hdone⟩ := (h.block.bind_iff (htokens.room room)).1 hrest
    obtain ⟨rfl, rfl⟩ := spanFrom_pure_eq_done.1 hdone
    rw [hothers.current] at hcondition
    exact ⟨tokens, others, condition, body, htokens.trans hothers, hcondition, hbody,
      by rw [(hfirst.cons (htokens.trans hothers)).spanFrom]⟩
  · rintro ⟨tokens, others, condition, body, hpass, hcondition, hbody, ha⟩
    obtain ⟨c₁, htokens, hothers⟩ := hpass.split
    refine ⟨tokens, condition, c₁, htokens, by rwa [hothers.current], ?_⟩
    refine (h.block.bind_iff (htokens.room room)).2 ⟨others, body, d, hothers, hbody, ?_⟩
    exact spanFrom_pure_eq_done.2 ⟨by rw [(hfirst.cons hpass).spanFrom, ha], rfl⟩

theorem whileLoop_eq_done_iff (h : g.Spells forms levels) (room : c.depth + levels ≤ maxNesting) :
    whileLoop g c = .done s d ↔
      ∃ first tokens others condition body, c.Passes (first :: (tokens ++ others)) d
        ∧ first.kind = .kwWhile ∧ forms.expr .lowest tokens (others.headD d.current) condition
        ∧ forms.block others d.current body
        ∧ s = .whileLoop condition body (.cover (first :: (tokens ++ others))) := by
  rw [whileLoop, expect_bind_iff .kwWhile rfl]
  constructor
  · rintro ⟨first, c₁, hfirst, hkind, hrest⟩
    obtain ⟨tokens, others, condition, body, hpass, hcondition, hbody, hs⟩ :=
      (conditioned_eq_done_iff h (hfirst.room room) hfirst).1 hrest
    exact ⟨first, tokens, others, condition, body, hfirst.cons hpass, hkind, hcondition, hbody, hs⟩
  · rintro ⟨first, tokens, others, condition, body, hpass, hkind, hcondition, hbody, hs⟩
    obtain ⟨c₁, hfirst, hrest⟩ := hpass.uncons
    refine ⟨first, c₁, hfirst, hkind, (conditioned_eq_done_iff h (hfirst.room room) hfirst).2 ?_⟩
    exact ⟨tokens, others, condition, body, hrest, hcondition, hbody, hs⟩

theorem accepts_branch (h : g.Spells forms levels) :
    (branch g).AcceptsAt (· = .kwElif) levels (Elif forms) := by
  intro c hguard room b d
  rw [branch, advance_bind_iff (by simp [hguard])]
  constructor
  · rintro ⟨first, c₁, hfirst, hkind, hrest⟩
    obtain ⟨tokens, others, condition, body, hpass, hcondition, hbody, rfl⟩ :=
      (conditioned_eq_done_iff h (hfirst.room room) hfirst).1 hrest
    exact ⟨_, hfirst.cons hpass, .intro (hkind.trans hguard) hcondition hbody⟩
  · rintro ⟨_, hpass, helif⟩
    obtain ⟨hkind, hcondition, hbody⟩ := helif
    obtain ⟨c₁, hfirst, hrest⟩ := hpass.uncons
    refine ⟨_, c₁, hfirst, hpass.kind.symm, (conditioned_eq_done_iff h (hfirst.room room) hfirst).2 ?_⟩
    exact ⟨_, _, _, _, hrest, hcondition, hbody, rfl⟩

theorem elif_opens : (Elif forms).Opens (· = .kwElif) := by
  intro tokens next b helif
  obtain ⟨hfirst, _, _⟩ := helif
  exact ⟨_, _, rfl, hfirst⟩

/-- The token behind the current one is the current token of the next cursor. -/
theorem peek_one (hend : c.kind ≠ .endOfInput) : c.peek 1 = c.next.kind := by
  rcases c with ⟨behind, ahead, ending, file, depth⟩
  cases ahead with
  | nil => exact absurd rfl hend
  | cons token tokens =>
    have hkind : token.kind ≠ .endOfInput := hend
    have hnext : Cursor.next ⟨behind, token :: tokens, ending, file, depth⟩
        = ⟨token :: behind, tokens, ending, file, depth⟩ := if_neg hkind
    rw [hnext]
    cases tokens <;> rfl

theorem accepts_otherwise (h : g.Spells forms levels) :
    (otherwise g).AcceptsAt (· = .kwElse) levels (Otherwise forms) := by
  intro c hguard room b d
  have hend : c.kind ≠ .endOfInput := by simp [hguard]
  have hnext := Cursor.Passes.next c hend
  rw [otherwise, cursor_bind, advance_bind, peek_one hend]
  constructor
  · intro hdone
    split at hdone
    · exact absurd hdone not_unexpected_eq_done
    · obtain ⟨tokens, hpass, hbody⟩ := (h.block trivial (hnext.room room) _ _).1 hdone
      exact ⟨_, hnext.cons hpass, .intro hguard hbody⟩
  · rintro ⟨_, hpass, hform⟩
    obtain ⟨hfirst, hbody⟩ := hform
    obtain ⟨c₁, hword, htokens⟩ := hpass.uncons
    obtain rfl := hword.next_eq
    obtain ⟨brace, others, rfl, hbrace⟩ := h.blockOpens hbody
    rw [if_neg (by simp [htokens.kind, hbrace])]
    exact (h.block trivial (hnext.room room) _ _).2 ⟨_, htokens, hbody⟩

theorem otherwise_opens : (Otherwise forms).Opens (· = .kwElse) := by
  intro tokens next b hform
  obtain ⟨hfirst, _⟩ := hform
  exact ⟨_, _, rfl, hfirst⟩

theorem conditional_eq_done_iff (h : g.Spells forms levels) (room : c.depth + levels ≤ maxNesting) :
    conditional g c = .done s d ↔
      ∃ first tokens others branches rest condition body elifs otherwise?,
        c.Passes (first :: (tokens ++ (others ++ (branches ++ rest)))) d ∧ first.kind = .kwIf
        ∧ forms.expr .lowest tokens ((others ++ (branches ++ rest)).headD d.current) condition
        ∧ forms.block others ((branches ++ rest).headD d.current) body
        ∧ Many opensBranch (Elif forms) branches (rest.headD d.current) elifs
        ∧ Clause .kwElse (Otherwise forms) rest d.current otherwise?
        ∧ s = .conditional condition body elifs otherwise?
            (.cover (first :: (tokens ++ (others ++ (branches ++ rest))))) := by
  have hopens : (Elif forms).Opens (opensBranch · = true) :=
    elif_opens.imp fun kind hkind => by simp [hkind, opensBranch]
  have hmany : (many opensBranch (branch g)).Accepts levels _ :=
    accepts_many rfl hopens (fun c hguard room =>
      accepts_branch h (by simpa [opensBranch] using hguard) room)
  have hclause : (ifAt .kwElse (otherwise g)).Accepts levels _ :=
    accepts_ifAt otherwise_opens (accepts_otherwise h)
  rw [conditional, expect_bind_iff .kwIf rfl]
  constructor
  · rintro ⟨first, c₁, hfirst, hkind, hrest⟩
    obtain ⟨tokens, condition, c₂, htokens, hcondition, hrest⟩ :=
      ((h.expr _).bind_iff (hfirst.room room)).1 hrest
    have room₂ := htokens.room (hfirst.room room)
    obtain ⟨others, body, c₃, hothers, hbody, hrest⟩ := (h.block.bind_iff room₂).1 hrest
    have room₃ := hothers.room room₂
    obtain ⟨branches, elifs, c₄, hbranches, helifs, hrest⟩ := (hmany.bind_iff room₃).1 hrest
    obtain ⟨rest, otherwise?, c₅, hlast, hotherwise, hdone⟩ :=
      (hclause.bind_iff (hbranches.room room₃)).1 hrest
    obtain ⟨rfl, rfl⟩ := spanFrom_pure_eq_done.1 hdone
    -- What follows each part is the first token behind it, which the later parts tell.
    have hend := hbranches.trans hlast
    have hall := hfirst.cons (htokens.trans (hothers.trans hend))
    rw [hlast.current] at helifs
    rw [hend.current] at hbody
    rw [(hothers.trans hend).current] at hcondition
    exact ⟨first, tokens, others, branches, rest, condition, body, elifs, otherwise?, hall, hkind,
      hcondition, hbody, helifs, hotherwise, by rw [hall.spanFrom]⟩
  · rintro ⟨first, tokens, others, branches, rest, condition, body, elifs, otherwise?, hpass, hkind,
      hcondition, hbody, helifs, hotherwise, hs⟩
    obtain ⟨c₁, hfirst, hrest⟩ := hpass.uncons
    obtain ⟨c₂, htokens, hrest⟩ := hrest.split
    obtain ⟨c₃, hothers, hend⟩ := hrest.split
    obtain ⟨c₄, hbranches, hlast⟩ := hend.split
    have room₂ := htokens.room (hfirst.room room)
    have room₃ := hothers.room room₂
    refine ⟨first, c₁, hfirst, hkind, ((h.expr _).bind_iff (hfirst.room room)).2 ?_⟩
    refine ⟨tokens, condition, c₂, htokens, by rwa [hrest.current], ?_⟩
    refine (h.block.bind_iff room₂).2 ⟨others, body, c₃, hothers, by rwa [hend.current], ?_⟩
    refine (hmany.bind_iff room₃).2 ⟨branches, elifs, c₄, hbranches, by rwa [hlast.current], ?_⟩
    refine (hclause.bind_iff (hbranches.room room₃)).2 ⟨rest, otherwise?, d, hlast, hotherwise, ?_⟩
    exact spanFrom_pure_eq_done.2 ⟨by rw [hpass.spanFrom, hs], rfl⟩

theorem forLoop_eq_done_iff (h : g.Spells forms levels) (room : c.depth + levels ≤ maxNesting) :
    forLoop g c = .done s d ↔
      ∃ first name word tokens others iterable body,
        c.Passes (first :: name :: word :: (tokens ++ others)) d ∧ first.kind = .kwFor
        ∧ name.kind = .identifier ∧ word.kind = .kwIn
        ∧ forms.expr .lowest tokens (others.headD d.current) iterable
        ∧ forms.block others d.current body
        ∧ s = .forLoop ⟨name.value, name.span⟩ iterable body
            (.cover (first :: name :: word :: (tokens ++ others))) := by
  rw [forLoop, expect_bind_iff .kwFor rfl]
  constructor
  · rintro ⟨first, c₁, hfirst, hkind, hrest⟩
    obtain ⟨name, c₂, hname, hident, hrest⟩ := (expectAs_bind_iff .identifier rfl).1 hrest
    obtain ⟨word, c₃, hword, hin, hrest⟩ := (expect_bind_iff .kwIn rfl).1 hrest
    have hhead := hfirst.cons (hname.cons hword)
    obtain ⟨tokens, iterable, c₄, htokens, hiterable, hrest⟩ :=
      ((h.expr _).bind_iff (hhead.room room)).1 hrest
    obtain ⟨others, body, c₅, hothers, hbody, hdone⟩ :=
      (h.block.bind_iff (htokens.room (hhead.room room))).1 hrest
    obtain ⟨rfl, rfl⟩ := spanFrom_pure_eq_done.1 hdone
    have hall := hfirst.cons (hname.cons (hword.cons (htokens.trans hothers)))
    rw [hothers.current] at hiterable
    exact ⟨first, name, word, tokens, others, iterable, body, hall, hkind, hident, hin, hiterable,
      hbody, by rw [hall.spanFrom]⟩
  · rintro ⟨first, name, word, tokens, others, iterable, body, hpass, hkind, hident, hin, hiterable,
      hbody, hs⟩
    obtain ⟨c₁, hfirst, hrest⟩ := hpass.uncons
    obtain ⟨c₂, hname, hrest⟩ := hrest.uncons
    obtain ⟨c₃, hword, hrest⟩ := hrest.uncons
    obtain ⟨c₄, htokens, hothers⟩ := hrest.split
    have room₃ := hword.room (hname.room (hfirst.room room))
    refine ⟨first, c₁, hfirst, hkind, ?_⟩
    refine (expectAs_bind_iff .identifier rfl).2 ⟨name, c₂, hname, hident, ?_⟩
    refine (expect_bind_iff .kwIn rfl).2 ⟨word, c₃, hword, hin, ((h.expr _).bind_iff room₃).2 ?_⟩
    refine ⟨tokens, iterable, c₄, htokens, by rwa [hothers.current], ?_⟩
    refine (h.block.bind_iff (htokens.room room₃)).2 ⟨others, body, d, hothers, hbody, ?_⟩
    exact spanFrom_pure_eq_done.2 ⟨by rw [hpass.spanFrom, hs], rfl⟩

/-- A statement that is a keyword alone. -/
theorem keyword_eq_done_iff (kind : TokenKind) (hkind : kind != .endOfInput) {f : Span → Stmt} :
    (do
      let token ← expect kind
      pure (f token.span) : Reading Stmt) c = .done s d ↔
      ∃ token, c.Passes [token] d ∧ token.kind = kind ∧ s = f token.span := by
  rw [expect_bind_iff kind hkind]
  constructor
  · rintro ⟨token, c₁, hpass, hkind, hdone⟩
    obtain ⟨rfl, rfl⟩ := pure_eq_done.1 hdone
    exact ⟨token, hpass, hkind, rfl⟩
  · rintro ⟨token, hpass, hkind, hs⟩
    exact ⟨token, d, hpass, hkind, hs ▸ rfl⟩

theorem breakLoop_eq_done_iff :
    breakLoop c = .done s d ↔
      ∃ token, c.Passes [token] d ∧ token.kind = .kwBreak ∧ s = .breakLoop token.span :=
  keyword_eq_done_iff .kwBreak rfl

theorem continueLoop_eq_done_iff :
    continueLoop c = .done s d ↔
      ∃ token, c.Passes [token] d ∧ token.kind = .kwContinue ∧ s = .continueLoop token.span :=
  keyword_eq_done_iff .kwContinue rfl

theorem native_eq_done_iff :
    native c = .done s d ↔
      ∃ first name arrow symbol, c.Passes [first, name, arrow, symbol] d ∧ first.kind = .kwNative
        ∧ name.kind = .identifier ∧ arrow.kind = .arrow ∧ symbol.kind = .string
        ∧ s = .native ⟨name.value, name.span⟩ symbol.value (.cover [first, name, arrow, symbol]) := by
  rw [native, expect_bind_iff .kwNative rfl]
  constructor
  · rintro ⟨first, c₁, hfirst, hkind, hrest⟩
    obtain ⟨name, c₂, hname, hident, hrest⟩ := identifier_bind_iff.1 hrest
    obtain ⟨arrow, c₃, harrow, hsign, hrest⟩ := (expect_bind_iff .arrow rfl).1 hrest
    obtain ⟨symbol, c₄, hsymbol, hstring, hdone⟩ := (expectAs_bind_iff .string rfl).1 hrest
    obtain ⟨rfl, rfl⟩ := spanFrom_pure_eq_done.1 hdone
    have hall := hfirst.cons (hname.cons (harrow.cons hsymbol))
    exact ⟨first, name, arrow, symbol, hall, hkind, hident, hsign, hstring, by rw [hall.spanFrom]⟩
  · rintro ⟨first, name, arrow, symbol, hpass, hkind, hident, hsign, hstring, hs⟩
    obtain ⟨c₁, hfirst, hrest⟩ := hpass.uncons
    obtain ⟨c₂, hname, hrest⟩ := hrest.uncons
    obtain ⟨c₃, harrow, hsymbol⟩ := hrest.uncons
    refine ⟨first, c₁, hfirst, hkind, identifier_bind_iff.2 ⟨name, c₂, hname, hident, ?_⟩⟩
    refine (expect_bind_iff .arrow rfl).2 ⟨arrow, c₃, harrow, hsign, ?_⟩
    refine (expectAs_bind_iff .string rfl).2 ⟨symbol, d, hsymbol, hstring, ?_⟩
    exact spanFrom_pure_eq_done.2 ⟨by rw [hpass.spanFrom, hs], rfl⟩

theorem accepts_function (h : g.Spells forms levels) :
    (function g).Accepts levels (Named forms) := by
  have hparameters : (ifAt .openParen parameters).Accepts levels _ :=
    accepts_ifAt bracketed_opens accepts_parameters.at
  have hblock : (ifAt .openCurly g.block).Accepts levels _ := accepts_ifAt h.blockOpens h.block.at
  intro c _ room f d
  rw [function, expect_bind_iff .kwFn rfl]
  constructor
  · rintro ⟨first, c₁, hfirst, hkind, hrest⟩
    obtain ⟨name, c₂, hname, hident, hrest⟩ := identifier_bind_iff.1 hrest
    have room₂ := hname.room (hfirst.room room)
    obtain ⟨tokens, parameters?, c₃, htokens, hclause, hrest⟩ := (hparameters.bind_iff room₂).1 hrest
    obtain ⟨others, body?, c₄, hothers, hbody, hdone⟩ :=
      (hblock.bind_iff (htokens.room room₂)).1 hrest
    obtain ⟨rfl, rfl⟩ := spanFrom_pure_eq_done.1 hdone
    have hall := hfirst.cons (hname.cons (htokens.trans hothers))
    rw [hothers.current] at hclause
    rw [hall.spanFrom]
    exact ⟨_, hall, .intro hkind hident hclause hbody⟩
  · rintro ⟨_, hpass, hform⟩
    obtain ⟨hkind, hident, hclause, hbody⟩ := hform
    obtain ⟨c₁, hfirst, hrest⟩ := hpass.uncons
    obtain ⟨c₂, hname, hrest⟩ := hrest.uncons
    obtain ⟨c₃, htokens, hothers⟩ := hrest.split
    have room₂ := hname.room (hfirst.room room)
    refine ⟨_, c₁, hfirst, hkind, identifier_bind_iff.2 ⟨_, c₂, hname, hident, ?_⟩⟩
    refine (hparameters.bind_iff room₂).2 ⟨_, _, c₃, htokens, by rwa [hothers.current], ?_⟩
    refine (hblock.bind_iff (htokens.room room₂)).2 ⟨_, _, d, hothers, hbody, ?_⟩
    exact spanFrom_pure_eq_done.2 ⟨by rw [hpass.spanFrom], rfl⟩

theorem named_opens : (Named forms).Opens (· = .kwFn) := by
  intro tokens next f hform
  obtain ⟨hfirst, _, _, _⟩ := hform
  exact ⟨_, _, rfl, hfirst⟩

/-! ## Statements of every kind -/

theorem functionStatement_eq_done_iff (h : g.Spells forms levels)
    (room : c.depth + levels ≤ maxNesting) :
    functionStatement g c = .done s d ↔
      ∃ tokens f, c.Passes tokens d ∧ Named forms tokens d.current f ∧ s = .function f f.span := by
  rw [functionStatement, (accepts_function h).bind_iff room]
  constructor
  · rintro ⟨tokens, f, c₁, hpass, hnamed, hrest⟩
    obtain ⟨rfl, rfl⟩ := pure_eq_done.1 hrest
    exact ⟨tokens, f, hpass, hnamed, rfl⟩
  · rintro ⟨tokens, f, hpass, hnamed, hs⟩
    exact ⟨tokens, f, d, hpass, hnamed, by rw [hs]; rfl⟩

theorem statement_apply (g : Grammar.Inner) (c : Cursor) :
    statement g c =
      if c.kind = .identifier then chainStatement g c
      else match c.kind.statementForm? with
        | some form => statementOf g form c
        | none => unexpected "statement" c := by
  rw [statement, kind_bind]
  split
  · rfl
  · cases c.kind.statementForm? <;> rfl

/-- One constructor of the form for each kind of statement that a keyword opens. -/
theorem statement_of_statementOf (h : g.Spells forms levels) (room : c.depth + levels ≤ maxNesting)
    {form : StatementForm} (hdone : statementOf g form c = .done s d) :
    ∃ tokens, c.Passes tokens d ∧ Statement forms tokens d.current s := by
  cases form with
  | returnValue =>
    obtain ⟨first, tokens, value, hpass, hkind, hvalue, rfl⟩ := (returnValue_eq_done_iff h room).1 hdone
    exact ⟨_, hpass, .returnValue hkind hvalue⟩
  | whileLoop =>
    obtain ⟨first, tokens, others, condition, body, hpass, hkind, hcondition, hbody, rfl⟩ :=
      (whileLoop_eq_done_iff h room).1 hdone
    exact ⟨_, hpass, .whileLoop hkind hcondition hbody⟩
  | conditional =>
    obtain ⟨first, tokens, others, branches, rest, condition, body, elifs, otherwise?, hpass, hkind,
      hcondition, hbody, helifs, hotherwise, rfl⟩ := (conditional_eq_done_iff h room).1 hdone
    exact ⟨_, hpass, .conditional hkind hcondition hbody helifs hotherwise⟩
  | forLoop =>
    obtain ⟨first, name, word, tokens, others, iterable, body, hpass, hkind, hident, hin, hiterable,
      hbody, rfl⟩ := (forLoop_eq_done_iff h room).1 hdone
    exact ⟨_, hpass, .forLoop hkind hident hin hiterable hbody⟩
  | breakLoop =>
    obtain ⟨token, hpass, hkind, rfl⟩ := breakLoop_eq_done_iff.1 hdone
    exact ⟨_, hpass, .breakLoop hkind⟩
  | continueLoop =>
    obtain ⟨token, hpass, hkind, rfl⟩ := continueLoop_eq_done_iff.1 hdone
    exact ⟨_, hpass, .continueLoop hkind⟩
  | native =>
    obtain ⟨first, name, arrow, symbol, hpass, hkind, hident, hsign, hstring, rfl⟩ :=
      native_eq_done_iff.1 hdone
    exact ⟨_, hpass, .native hkind hident hsign hstring⟩
  | function =>
    obtain ⟨tokens, f, hpass, hnamed, rfl⟩ := (functionStatement_eq_done_iff h room).1 hdone
    exact ⟨tokens, hpass, .function hnamed⟩

theorem statement_of_keyword (g : Grammar.Inner) {first : Token} {tokens : List Token}
    {keyword : TokenKind} {form : StatementForm} (hpass : c.Passes (first :: tokens) d)
    (hfirst : first.kind = keyword) (hform : keyword.statementForm? = some form) :
    statement g c = statementOf g form c := by
  have hname : keyword ≠ .identifier := by
    rintro rfl
    cases hform
  rw [statement_apply, hpass.kind, hfirst, if_neg hname, hform]

/-- Each constructor of the form is read by the reading that its first token opens. -/
theorem statement_eq_done (h : g.Spells forms levels) (room : c.depth + levels ≤ maxNesting)
    {tokens : List Token} (hpass : c.Passes tokens d) (hform : Statement forms tokens d.current s) :
    statement g c = .done s d := by
  have hchain {target : Expr} {others : List Token} {next : Token} (htokens : c.Passes others d)
      {us vs : List Token} (hsplit : others = us ++ vs) (htarget : Chain forms us next target) :
      c.kind = .identifier := by
    obtain ⟨first, rest, rfl, hfirst⟩ := chain_opens htarget
    subst hsplit
    exact htokens.kind.trans hfirst
  generalize hnext : d.current = next at hform
  cases hform with
  | define htarget hmark hvalue =>
    subst hnext
    rw [statement_apply, if_pos (hchain hpass rfl htarget)]
    exact (chainStatement_eq_done_iff h room).2
      (.inl ⟨_, _, _, _, _, hpass, htarget, hmark, hvalue, rfl⟩)
  | assign htarget hmark hvalue =>
    subst hnext
    rw [statement_apply, if_pos (hchain hpass rfl htarget)]
    exact (chainStatement_eq_done_iff h room).2
      (.inr (.inl ⟨_, _, _, _, _, _, hpass, htarget, hmark, hvalue, rfl⟩))
  | expression htarget hdefine hassign =>
    subst hnext
    rw [statement_apply, if_pos (hchain hpass (List.append_nil _).symm htarget)]
    exact (chainStatement_eq_done_iff h room).2
      (.inr (.inr ⟨_, _, hpass, htarget, hdefine, hassign, rfl⟩))
  | returnValue hfirst hvalue =>
    subst hnext
    rw [statement_of_keyword g hpass hfirst rfl]
    exact (returnValue_eq_done_iff h room).2 ⟨_, _, _, hpass, hfirst, hvalue, rfl⟩
  | whileLoop hfirst hcondition hbody =>
    subst hnext
    rw [statement_of_keyword g hpass hfirst rfl]
    exact (whileLoop_eq_done_iff h room).2 ⟨_, _, _, _, _, hpass, hfirst, hcondition, hbody, rfl⟩
  | conditional hfirst hcondition hbody helifs hotherwise =>
    subst hnext
    rw [statement_of_keyword g hpass hfirst rfl]
    exact (conditional_eq_done_iff h room).2
      ⟨_, _, _, _, _, _, _, _, _, hpass, hfirst, hcondition, hbody, helifs, hotherwise, rfl⟩
  | forLoop hfirst hname hword hiterable hbody =>
    subst hnext
    rw [statement_of_keyword g hpass hfirst rfl]
    exact (forLoop_eq_done_iff h room).2
      ⟨_, _, _, _, _, _, _, hpass, hfirst, hname, hword, hiterable, hbody, rfl⟩
  | breakLoop hfirst =>
    rw [statement_of_keyword g hpass hfirst rfl]
    exact breakLoop_eq_done_iff.2 ⟨_, hpass, hfirst, rfl⟩
  | continueLoop hfirst =>
    rw [statement_of_keyword g hpass hfirst rfl]
    exact continueLoop_eq_done_iff.2 ⟨_, hpass, hfirst, rfl⟩
  | native hfirst hname harrow hsymbol =>
    rw [statement_of_keyword g hpass hfirst rfl]
    exact native_eq_done_iff.2 ⟨_, _, _, _, hpass, hfirst, hname, harrow, hsymbol, rfl⟩
  | function hnamed =>
    subst hnext
    obtain ⟨first, others, rfl, hfirst⟩ := named_opens hnamed
    rw [statement_of_keyword g hpass hfirst rfl]
    exact (functionStatement_eq_done_iff h room).2 ⟨_, _, hpass, hnamed, rfl⟩

theorem accepts_statement (h : g.Spells forms levels) :
    (statement g).Accepts levels (Statement forms) := by
  intro c _ room s d
  constructor
  · intro hdone
    rw [statement_apply] at hdone
    split at hdone
    · rcases (chainStatement_eq_done_iff h room).1 hdone with
        ⟨tokens, mark, others, target, value, hpass, htarget, hmark, hvalue, rfl⟩
        | ⟨tokens, mark, others, target, op, value, hpass, htarget, hmark, hvalue, rfl⟩
        | ⟨tokens, target, hpass, htarget, hdefine, hassign, rfl⟩
      · exact ⟨_, hpass, .define htarget hmark hvalue⟩
      · exact ⟨_, hpass, .assign htarget hmark hvalue⟩
      · exact ⟨_, hpass, .expression htarget hdefine hassign⟩
    · split at hdone
      · exact statement_of_statementOf h room hdone
      · exact absurd hdone not_unexpected_eq_done
  · rintro ⟨tokens, hpass, hform⟩
    exact statement_eq_done h room hpass hform

/-- One token decides that a statement is there. -/
theorem statement_opens :
    (Statement forms).Opens (fun kind => kind = .identifier ∨ kind.statementForm?.isSome) := by
  intro tokens next s hform
  cases hform with
  | define htarget | assign htarget | expression htarget =>
    obtain ⟨first, others, rfl, hfirst⟩ := chain_opens htarget
    exact ⟨first, _, rfl, .inl hfirst⟩
  | returnValue hfirst | whileLoop hfirst | conditional hfirst | forLoop hfirst | breakLoop hfirst
  | continueLoop hfirst | native hfirst => exact ⟨_, _, rfl, .inr (by rw [hfirst]; rfl)⟩
  | function hnamed =>
    obtain ⟨first, others, rfl, hfirst⟩ := named_opens hnamed
    exact ⟨first, others, rfl, .inr (by rw [hfirst]; rfl)⟩

/-! ## Blocks -/

/-- A statement goes on with the contents of braces. -/
theorem statement_opens_inside : (Statement forms).Opens (insideBraces · = true) := by
  apply statement_opens.imp
  intro kind hkind
  cases kind <;> simp_all [insideBraces, TokenKind.statementForm?]

theorem accepts_block (h : g.Spells forms levels) :
    (block g).Accepts (levels + 1) (Braced forms) := by
  have hmany : (many insideBraces (statement g)).Accepts levels _ :=
    accepts_many rfl statement_opens_inside (accepts_statement h).at
  intro c _ room b d
  have hinside : ({ c with depth := c.depth + 1 } : Cursor).depth + levels ≤ maxNesting := by
    rwa [← Nat.add_right_comm, Nat.add_assoc]
  rw [block, enter_bind _ (by omega), expect_bind_iff .openCurly rfl]
  constructor
  · rintro ⟨first, c₁, hfirst, hopen, hrest⟩
    obtain ⟨tokens, statements, c₂, htokens, hstatements, hrest⟩ :=
      (hmany.bind_iff (hfirst.room hinside)).1 hrest
    obtain ⟨close, c₃, hlast, hclose, hrest⟩ := (expect_bind_iff .closeCurly rfl).1 hrest
    rw [leave_bind] at hrest
    obtain ⟨rfl, rfl⟩ := spanFrom_pure_eq_done.1 hrest
    have hall := (hfirst.cons (htokens.trans hlast)).leave
    rw [hlast.current] at hstatements
    rw [hall.spanFrom]
    exact ⟨_, hall, .intro hopen hstatements hclose⟩
  · rintro ⟨_, hpass, hbraced⟩
    obtain ⟨hopen, hstatements, hclose⟩ := hbraced
    obtain ⟨c₁, hfirst, hrest⟩ := hpass.enter.uncons
    obtain ⟨c₂, htokens, hlast⟩ := hrest.split
    refine ⟨_, c₁, hfirst, hopen, (hmany.bind_iff (hfirst.room hinside)).2 ?_⟩
    refine ⟨_, _, c₂, htokens, by rwa [hlast.current], ?_⟩
    refine (expect_bind_iff .closeCurly rfl).2 ⟨_, _, hlast, hclose, ?_⟩
    rw [leave_bind]
    exact spanFrom_pure_eq_done.2 ⟨by rw [← hpass.spanFrom]; rfl, rfl⟩

theorem braced_opens : (Braced forms).Opens (· = .openCurly) := by
  intro tokens next b hform
  obtain ⟨hfirst, _, _⟩ := hform
  exact ⟨_, _, rfl, hfirst⟩

/-! ## Levels of nesting -/

/-- The expressions and blocks of every level have their forms. -/
theorem nested_spells (levels : Nat) : (nested levels).Spells (upTo levels) levels := by
  induction levels with
  | zero =>
    have hnone {α : Type} : (tooDeep : Reading α).Accepts 0 (fun _ _ _ => False) := by
      intro c _ _ a d
      constructor
      · intro h
        cases h
      · rintro ⟨_, _, hform⟩
        exact hform.elim
    exact ⟨fun _ => hnone, hnone, fun _ _ _ _ hform => hform.elim, fun _ _ _ hform => hform.elim⟩
  | succ levels ih =>
    exact ⟨accepts_expression ih, accepts_block ih, fun _ => expression_opens, braced_opens⟩

end WattFront.Grammar
