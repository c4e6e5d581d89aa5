import WattFront.Proofs.Grammar.ResumingExpressions

/-! # Statements that more tokens mend

As for expressions: wherever a statement or a block fails for want of a token, more tokens make a whole one of
what it has passed. A statement is completed so that it may also stand at top level if any statement that
starts like it may, so a chain becomes the target of a definition.

`heldOpen_resumes` closes the circle: expressions and blocks of every depth can be mended.
-/

namespace WattFront

open Grammar Spelling Reading

/-- A statement that may stand at top level. -/
def Spelling.Alone (forms : Spelling.Inner) : Form Stmt :=
  fun tokens next s => Statement forms tokens next s ∧ standsAlone s

/-- A statement with a keyword. It may stand at top level unless it leaves a round of a loop or is a function. -/
def Spelling.Worded (forms : Spelling.Inner) (form : StatementForm) : Form Stmt :=
  fun tokens next s => Statement forms tokens next s
    ∧ (standsAlone s ∨ form = .breakLoop ∨ form = .continueLoop ∨ form = .function)

namespace Grammar

variable {g : Grammar.Inner} {forms : Spelling.Inner} {levels : Nat}

section

variable (h : g.Resumes forms levels)

include h

/-! ## Statements that start with a chain -/

/-- A mark without its value, behind a target. -/
theorem resumes_marked {mark : TokenKind} (hmark : mark != .endOfInput) {f : Expr → Span → Stmt} {start : Position}
    (hform : ∀ ⦃tokens first others next target value⦄, Chain forms tokens first target → first.kind = mark →
      forms.expr .lowest others next value → ∃ s, Alone forms (tokens ++ first :: others) next s) :
    (do
      let _ ← advance
      let value ← g.expr .lowest
      pure (f value (← spanFrom start)) : Reading Stmt).ResumesAt (· = mark) levels
      (Growing (Chain forms) (Alone forms)) (fun _ => False) (stopsExpression · = true) := by
  have hvalue : (do
      let _ ← advance
      let value ← g.expr .lowest
      pure (f value (← spanFrom start)) : Reading Stmt).ResumesAt (· = mark) levels
      (Headed mark (forms.expr .lowest)) (fun _ => False) (stopsExpression · = true) :=
    .advance hmark fun _ _ => (h.expr .lowest).last
  refine hvalue.imp fun _ _ _ _ hheaded => ⟨(), fun _ _ htarget => ?_⟩
  obtain ⟨hkind, hvalue⟩ := hheaded
  exact hform htarget hkind hvalue

/-- A chain with nothing behind it becomes the target of a definition. -/
theorem completes_mark :
    (Growing (Chain forms) (Alone forms)).Completes (· = .define) (stopsExpression · = true) [] := by
  have hvalue : (expect .define >>= fun _ => g.expr .lowest).Resumes levels (Headed .define (forms.expr .lowest))
      (· = .define) (stopsExpression · = true) := .token rfl fun _ => h.expr .lowest
  refine hvalue.sample.imp fun _ _ _ _ hheaded => ⟨(), fun _ _ htarget => ?_⟩
  obtain ⟨hkind, hvalue⟩ := hheaded
  exact ⟨_, .define htarget hkind hvalue, trivial⟩

theorem resumes_chainStatement :
    (chainStatement g).Resumes levels (Alone forms) (· = .identifier) (stopsExpression · = true) := by
  have hmid : ∀ kind, kind = .define → endsChain kind := by
    rintro _ rfl
    exact ⟨rfl, by decide⟩
  refine ⟨rfl, ((resumes_chain h).sample.both (completes_mark h) hmid).grown, ?_⟩
  intro c d failure _ room hfailed hmisses
  rw [chainStatement, here_bind] at hfailed
  rcases bind_eq_failed.1 hfailed with hfailed | ⟨target, e, hdone, hfailed⟩
  · obtain ⟨tokens, hreach, hcompletes⟩ := (resumes_chain h).resumes trivial room hfailed hmisses
    exact ⟨tokens, hreach, (hcompletes.both (completes_mark h) hmid).grown⟩
  · obtain ⟨front, hfront, htarget⟩ := (accepts_chain h.spells trivial (Nat.le_of_eq room) target e).1 hdone
    have room' : e.depth + levels = maxNesting := hfront.depth ▸ room
    obtain ⟨others, hreach, hcompletes⟩ : ∃ others, e.Reaches others d
        ∧ (Growing (Chain forms) (Alone forms)).Completes (fun _ => False) (stopsExpression · = true) others := by
      rw [kind_bind] at hfailed
      by_cases hdefine : e.kind = .define
      · rw [if_pos hdefine] at hfailed
        refine resumes_marked h rfl ?_ hdefine room' hfailed hmisses
        intro _ _ _ _ _ _ htarget hkind hvalue
        exact ⟨_, .define htarget hkind hvalue, trivial⟩
      · rw [if_neg hdefine] at hfailed
        cases hop : AssignOp.ofToken? e.kind with
        | none =>
          rw [hop] at hfailed
          cases hfailed
        | some op =>
          rw [hop] at hfailed
          refine resumes_marked h (bne_iff_ne.2 (kind_of_assignOp hop).1) ?_ rfl room' hfailed hmisses
          intro _ _ _ _ _ _ htarget hkind hvalue
          exact ⟨_, .assign htarget (hkind ▸ hop) hvalue, trivial⟩
    obtain ⟨tokens, hreach, hcompletes⟩ :=
      hcompletes.after hfront htarget chain_endsBefore hreach (fun _ => False.elim) fun _ _ => False.elim
    exact ⟨tokens, hreach, hcompletes.grown⟩

/-! ## Statements with a keyword -/

theorem resumes_returnValue :
    (returnValue g).Resumes levels (Alone forms) (· = .kwReturn) (stopsExpression · = true) := by
  have hheaded : (returnValue g).Resumes levels (Headed .kwReturn (forms.expr .lowest)) (· = .kwReturn)
      (stopsExpression · = true) := .token rfl fun _ => (h.expr .lowest).last
  refine hheaded.imp fun _ _ _ _ hform => ?_
  obtain ⟨hkind, hvalue⟩ := hform
  exact ⟨_, .returnValue hkind hvalue, trivial⟩

/-- A condition with its block. -/
theorem resumes_conditioned {α : Type} {f : Expr → Block → Reading α} [∀ e b, (f e b).Succeeds] :
    (do
      let condition ← g.expr .lowest
      let body ← g.block
      f condition body : Reading α).Resumes levels (Both (forms.expr .lowest) forms.block) (fun _ => True)
      fun _ => True := by
  refine h.exprThen .lowest (fun _ => h.block.last) ?_
  rintro _ rfl
  rfl

theorem resumes_whileLoop : (whileLoop g).Resumes levels (Alone forms) (· = .kwWhile) fun _ => True := by
  have hheaded : (whileLoop g).Resumes levels (Headed .kwWhile (Both (forms.expr .lowest) forms.block))
      (· = .kwWhile) fun _ => True := .token rfl fun _ => resumes_conditioned h
  refine hheaded.imp fun _ _ _ _ hform => ?_
  obtain ⟨hkind, ⟨hcondition, hbody⟩⟩ := hform
  exact ⟨_, .whileLoop hkind hcondition hbody, trivial⟩

theorem resumes_branch :
    (branch g).ResumesAt (· = .kwElif) levels (Elif forms) (fun _ => False) fun _ => True := by
  have hheaded : (branch g).ResumesAt (· = .kwElif) levels
      (Headed .kwElif (Both (forms.expr .lowest) forms.block)) (fun _ => False) fun _ => True :=
    .advance rfl fun _ _ => resumes_conditioned h
  refine hheaded.imp fun _ _ _ _ hform => ?_
  obtain ⟨hkind, ⟨hcondition, hbody⟩⟩ := hform
  exact ⟨_, .intro hkind hcondition hbody⟩

/-- The two keywords of other languages are refused behind the first of them, where a block is put in. -/
theorem resumes_otherwise :
    (otherwise g).ResumesAt (· = .kwElse) levels (Otherwise forms) (fun _ => False) fun _ => True := by
  intro c d failure hguard room hfailed hmisses
  have hbody : (if c.peek 1 = .kwIf then unexpected "`elif` instead of `else if`" else g.block).Resumes levels
      forms.block (· = .openCurly) fun _ => True := by
    split
    · exact ⟨trivial, h.block.sample, .unexpected h.block.sample _⟩
    · exact h.block
  have hheaded : (advance >>= fun _ =>
      if c.peek 1 = .kwIf then unexpected "`elif` instead of `else if`" else g.block).ResumesAt (· = .kwElse)
      levels (Headed .kwElse forms.block) (fun _ => False) fun _ => True := .advance rfl fun _ _ => hbody
  rw [otherwise, cursor_bind] at hfailed
  obtain ⟨tokens, hreach, hcompletes⟩ := hheaded hguard room hfailed hmisses
  refine ⟨tokens, hreach, hcompletes.imp fun _ _ _ _ hform => ?_⟩
  obtain ⟨hkind, hblock⟩ := hform
  exact ⟨_, .intro hkind hblock⟩

theorem resumes_conditional :
    (conditional g).Resumes levels (Alone forms) (· = .kwIf) (stopsStatement · = true) := by
  have hstops {kind : TokenKind} (hkind : stopsStatement kind = true) :
      stopsExpression kind = true ∧ opensBranch kind = false ∧ kind ≠ .kwElse := by
    have hexpression := stopsExpression_of_stopsStatement hkind
    simp only [stopsStatement, Bool.and_eq_true, Bool.not_eq_true', decide_eq_true_eq] at hkind
    exact ⟨hexpression, hkind.1.2, hkind.2⟩
  have hgo (kind : TokenKind) : opensBranch kind = true ↔ kind = .kwElif := by
    rw [opensBranch, decide_eq_true_iff]
  have helif : (branch g).ResumesAt (opensBranch · = true) levels (Elif forms) (fun _ => False)
      (stopsExpression · = true) :=
    ((resumes_branch h).of_guard fun kind => (hgo kind).1).mono (fun _ => id) fun _ _ => trivial
  have haccepts : (branch g).AcceptsAt (opensBranch · = true) levels (Elif forms) :=
    fun _ hguard => accepts_branch h.spells ((hgo _).1 hguard)
  have hfirst : (Elif forms).Opens (opensBranch · = true) := elif_opens.imp fun kind => (hgo kind).2
  have hlast : (ifAt .kwElse (otherwise g)).Resumes levels (Clause .kwElse (Otherwise forms))
      (stopsStatement · = true) (stopsStatement · = true) := by
    have hword : (otherwise g).ResumesAt (· = .kwElse) levels (Otherwise forms) (fun _ => False)
        (stopsStatement · = true) := (resumes_otherwise h).mono (fun _ => id) fun _ _ => trivial
    exact (Resumes.ifAt hword rfl rfl).mono rfl (fun _ hkind => hkind.elim False.elim And.left)
      fun _ hkind => ⟨hkind, (hstops hkind).2.2⟩
  have hmid : ∀ kind, stopsStatement kind = true → stopsExpression kind = true ∧ opensBranch kind = false :=
    fun kind hkind => ⟨(hstops hkind).1, (hstops hkind).2.1⟩
  have hheaded : (conditional g).Resumes levels (Headed .kwIf (Both (forms.expr .lowest) (Both forms.block
      (Both (Many opensBranch (Elif forms)) (Clause .kwElse (Otherwise forms)))))) (· = .kwIf)
      (stopsStatement · = true) := by
    refine .token rfl fun _ => h.exprThen .lowest (fun _ => h.blockThen fun _ => .manyThen helif haccepts hfirst
      (elif_endsBefore h.ends) rfl rfl (fun _ => hlast.last) hmid) ?_
    rintro _ rfl
    rfl
  refine hheaded.imp fun _ _ _ _ hform => ?_
  obtain ⟨hkind, ⟨hcondition, ⟨hbody, ⟨helifs, hotherwise⟩⟩⟩⟩ := hform
  exact ⟨_, .conditional hkind hcondition hbody helifs hotherwise, trivial⟩

theorem resumes_forLoop : (forLoop g).Resumes levels (Alone forms) (· = .kwFor) fun _ => True := by
  have hheaded : (forLoop g).Resumes levels (Headed .kwFor (Headed .identifier (Headed .kwIn
      (Both (forms.expr .lowest) forms.block)))) (· = .kwFor) fun _ => True :=
    .token rfl fun _ => .token rfl fun _ => .token rfl fun _ => resumes_conditioned h
  refine hheaded.imp fun _ _ _ _ hform => ?_
  obtain ⟨hkind, ⟨hname, ⟨hword, ⟨hiterable, hbody⟩⟩⟩⟩ := hform
  exact ⟨_, .forLoop hkind hname hword hiterable hbody, trivial⟩

omit h in
theorem resumes_breakLoop : breakLoop.Resumes levels (Statement forms) (· = .kwBreak) fun _ => True := by
  refine ((Resumes.expectAs rfl _).last).imp fun _ _ _ _ hform => ?_
  obtain ⟨hkind⟩ := hform
  exact ⟨_, .breakLoop hkind⟩

omit h in
theorem resumes_continueLoop : continueLoop.Resumes levels (Statement forms) (· = .kwContinue) fun _ => True := by
  refine ((Resumes.expectAs rfl _).last).imp fun _ _ _ _ hform => ?_
  obtain ⟨hkind⟩ := hform
  exact ⟨_, .continueLoop hkind⟩

omit h in
theorem resumes_native : native.Resumes levels (Alone forms) (· = .kwNative) fun _ => True := by
  have hheaded : native.Resumes levels (Headed .kwNative (Headed .identifier (Headed .arrow (Fixed .string))))
      (· = .kwNative) fun _ => True :=
    .token rfl fun _ => resumes_nameThen fun _ => .token rfl fun _ => (Resumes.expectAs rfl _).last
  refine hheaded.imp fun _ _ _ _ hform => ?_
  obtain ⟨hkind, ⟨hname, ⟨harrow, ⟨hsymbol⟩⟩⟩⟩ := hform
  exact ⟨_, .native hkind hname harrow hsymbol, trivial⟩

/-! ## Functions -/

/-- A body that may be missing. -/
theorem resumes_body (ends : TokenKind → Prop) (hend : ends .endOfInput) :
    (ifAt .openCurly g.block).Resumes levels (Clause .openCurly forms.block)
      (fun kind => kind = .openCurly ∨ ends kind ∧ kind ≠ .openCurly) fun kind => ends kind ∧ kind ≠ .openCurly :=
  .ifAt (h.block.resumesAt.mono (fun _ => id) fun _ _ => trivial) rfl hend

theorem resumes_function : (function g).Resumes levels (Named forms) (· = .kwFn)
    fun kind => kind ≠ .openParen ∧ kind ≠ .openCurly := by
  have hbody : (ifAt .openCurly g.block).Resumes levels (Clause .openCurly forms.block) (· ≠ .openParen)
      fun kind => kind ≠ .openParen ∧ kind ≠ .openCurly := by
    refine (resumes_body h (· ≠ .openParen) (by decide)).mono (by decide) ?_ fun _ => id
    rintro kind (rfl | hkind)
    · decide
    · exact hkind.1
  have hparameters : parameters.ResumesAt (· = .openParen) levels Parameters (· = .openParen) fun _ => True :=
    resumes_parameters.resumesAt
  have hheaded : (function g).Resumes levels (Headed .kwFn (Headed .identifier (Both (Clause .openParen Parameters)
      (Clause .openCurly forms.block)))) (· = .kwFn) fun kind => kind ≠ .openParen ∧ kind ≠ .openCurly :=
    .token rfl fun _ => resumes_nameThen fun _ => .clauseThen hparameters accepts_parameters.at bracketed_opens
      bracketed_endsBefore rfl trivial (fun _ => hbody.last) fun _ hkind => ⟨trivial, hkind⟩
  refine hheaded.imp fun _ _ _ _ hform => ?_
  obtain ⟨hkind, ⟨hname, ⟨hparameters, hbody⟩⟩⟩ := hform
  exact ⟨_, .intro hkind hname hparameters hbody⟩

theorem resumes_functionStatement : (functionStatement g).Resumes levels (Statement forms) (· = .kwFn)
    fun kind => kind ≠ .openParen ∧ kind ≠ .openCurly :=
  (resumes_function h).last.imp fun _ _ _ _ hnamed => ⟨_, .function hnamed⟩

/-! ## Statements of every kind -/

theorem resumes_statementOf {guard : TokenKind → Prop} (form : StatementForm) :
    (statementOf g form).ResumesAt guard levels (Worded forms form) (fun _ => True)
      (stopsStatement · = true) := by
  have halone {x : Reading Stmt} {opens ends : TokenKind → Prop} (hx : x.Resumes levels (Alone forms) opens ends)
      (hends : ∀ kind, stopsStatement kind = true → ends kind) :
      x.ResumesAt guard levels (Worded forms form) (fun _ => True) (stopsStatement · = true) :=
    (hx.anywhere hends).imp fun _ _ s _ hform => ⟨s, hform.1, .inl hform.2⟩
  have hinside {x : Reading Stmt} {opens ends : TokenKind → Prop}
      (hx : x.Resumes levels (Statement forms) opens ends)
      (hends : ∀ kind, stopsStatement kind = true → ends kind)
      (hform : form = .breakLoop ∨ form = .continueLoop ∨ form = .function) :
      x.ResumesAt guard levels (Worded forms form) (fun _ => True) (stopsStatement · = true) :=
    (hx.anywhere hends).imp fun _ _ s _ hstatement => ⟨s, hstatement, .inr hform⟩
  cases form with
  | returnValue => exact halone (resumes_returnValue h) fun _ => stopsExpression_of_stopsStatement
  | whileLoop => exact halone (resumes_whileLoop h) fun _ _ => trivial
  | conditional => exact halone (resumes_conditional h) fun _ => id
  | forLoop => exact halone (resumes_forLoop h) fun _ _ => trivial
  | native => exact halone resumes_native fun _ _ => trivial
  | breakLoop => exact hinside resumes_breakLoop (fun _ _ => trivial) (.inl rfl)
  | continueLoop => exact hinside resumes_continueLoop (fun _ _ => trivial) (.inr (.inl rfl))
  | function =>
    refine hinside (resumes_functionStatement h) (fun kind hkind => ?_) (.inr (.inr rfl))
    constructor
    · rintro rfl
      cases hkind
    · rintro rfl
      cases hkind

/-- Where a statement is missing, a definition may always stand, also at top level. -/
theorem completes_alone : (Alone forms).Completes (fun _ => True) (stopsStatement · = true) [] :=
  (resumes_chainStatement h).sample.mono (fun _ _ => trivial) fun _ => stopsExpression_of_stopsStatement

theorem completes_statement : (Statement forms).Completes (fun _ => True) (stopsStatement · = true) [] :=
  (completes_alone h).imp fun _ _ s _ halone => ⟨s, halone.1⟩

theorem resumes_statement :
    (statement g).Resumes levels (Statement forms) (fun _ => True) (stopsStatement · = true) := by
  refine .ofKind rfl (completes_statement h) fun kind => ?_
  split
  · have hchain : (chainStatement g).ResumesAt (· = kind) levels (Alone forms) (fun _ => True)
        (stopsStatement · = true) :=
      (resumes_chainStatement h).anywhere fun _ => stopsExpression_of_stopsStatement
    exact hchain.imp fun _ _ s _ halone => ⟨s, halone.1⟩
  · split
    · next form _ => exact (resumes_statementOf h form).imp fun _ _ s _ hform => ⟨s, hform.1⟩
    · exact .unexpected (completes_statement h) _

/-! ## Blocks -/

omit h in
/-- Where a block is missing, an empty one may always stand. -/
theorem completes_braced {ends : TokenKind → Prop} : (Braced forms).Completes (· = .openCurly) ends [] := by
  let braces : List Token := [TokenKind.openCurly.sample, TokenKind.closeCurly.sample]
  have hbraced (next : Token) : Braced forms braces next ⟨[], .cover braces⟩ := .intro rfl (.nil rfl) rfl
  refine ⟨braces, ?_, fun next _ => ⟨⟨_, hbraced next⟩, fun _ => rfl⟩⟩
  simp [braces, TokenKind.sample]

theorem resumes_insideBlock :
    (insideBlock g).Resumes levels (Braced forms) (· = .openCurly) fun _ => True := by
  have hclose : TokenKind.closeCurly != .endOfInput := rfl
  have hstatement : (statement g).ResumesAt (insideBraces · = true) levels (Statement forms) (fun _ => True)
      (stopsStatement · = true) := (resumes_statement h).resumesAt
  have hheaded : (insideBlock g).Resumes levels (Headed .openCurly (Both (Many insideBraces (Statement forms))
      (Fixed .closeCurly))) (· = .openCurly) fun _ => True := by
    refine .token rfl fun _ => .manyThen hstatement (accepts_statement h.spells).at statement_opens_inside
      (statement_endsBefore h.ends) rfl rfl (fun _ => (Resumes.expectAs hclose _).last) ?_
    rintro _ rfl
    exact ⟨rfl, rfl⟩
  refine hheaded.imp fun _ _ _ _ hform => ?_
  obtain ⟨hopen, ⟨hstatements, ⟨hclose⟩⟩⟩ := hform
  exact ⟨_, .intro hopen hstatements hclose⟩

end

/-! ## Levels of nesting -/

/-- Around mended contents stand mended expressions and blocks. -/
theorem heldOpen_of_inside (hexpr : ∀ power, (operations (heldOpen levels) power).Resumes levels
      (Expression (upTo levels) power) (fun _ => True) (stopsExpression · = true))
    (hblock : (insideBlock (heldOpen levels)).Resumes levels (Braced (upTo levels)) (· = .openCurly)
      fun _ => True) :
    (heldOpen (levels + 1)).Resumes (upTo (levels + 1)) (levels + 1) where
  spells := heldOpen_spells (levels + 1)
  ends := upTo_endsBefore (levels + 1)
  expr power := (hexpr power).around
  block := by
    have heq : (heldOpen (levels + 1)).block = block (heldOpen levels) := rfl
    rw [heq, block_eq]
    exact hblock.around

/-- The expressions and blocks of every level can be mended, if there is a level at all. -/
theorem heldOpen_resumes (levels : Nat) : (heldOpen (levels + 1)).Resumes (upTo (levels + 1)) (levels + 1) := by
  induction levels with
  | zero =>
    -- There is no room inside, so only what is put in has to be known.
    refine heldOpen_of_inside (fun power => ?_) ?_
    · exact .of_full (Holds.of_related (x := operations (nested 0) power)) rfl (completes_expression power)
    · exact .of_full (Holds.of_related (x := insideBlock (nested 0))) trivial completes_braced
  | succ levels ih => exact heldOpen_of_inside (resumes_operations ih) (resumes_insideBlock ih)

end Grammar

end WattFront
