import WattFront.Proofs.Grammar.Complaint
import WattFront.Proofs.Grammar.Resuming

/-! # Expressions that more tokens mend

Wherever an expression fails for want of a token, more tokens make a whole expression of what it has passed.
What is put in is as small as it can be: `1` for an operand, a closing bracket for a list, `{ }` for a block.

The expressions and blocks inside have to be mended in the same way, which `Grammar.Inner.Resumes` says of
them.
-/

namespace WattFront

open Grammar Spelling Reading

/-- The expressions and blocks inside a construct are read in their forms and can be mended. -/
structure Grammar.Inner.Resumes (g : Grammar.Inner) (forms : Spelling.Inner) (levels : Nat) : Prop where
  spells : g.Spells forms levels
  ends : forms.EndsBefore
  expr (power : BindingPower) :
    (g.expr power).Resumes levels (forms.expr power) (fun _ => True) (stopsExpression · = true)
  block : g.block.Resumes levels forms.block (· = .openCurly) fun _ => True

namespace Grammar

variable {g : Grammar.Inner} {forms : Spelling.Inner} {levels : Nat}

section

variable (h : g.Resumes forms levels) {α β : Type} {f : Expr → Reading α} {form : Form β}
  {opens ends : TokenKind → Prop}

include h

/-- An expression and what stands behind it. -/
theorem Inner.Resumes.exprThen (power : BindingPower) (hf : ∀ e, (f e).Resumes levels form opens ends)
    (hstops : ∀ kind, opens kind → stopsExpression kind = true) :
    (g.expr power >>= f).Resumes levels (Both (forms.expr power) form) (fun _ => True) ends :=
  (h.expr power).bind (h.spells.expr power) (h.ends.expr power) (h.spells.exprOpens power) hf hstops

/-- A block and what stands behind it. -/
theorem Inner.Resumes.blockThen {f : Block → Reading α} (hf : ∀ b, (f b).Resumes levels form opens ends) :
    (g.block >>= f).Resumes levels (Both forms.block form) (· = .openCurly) ends :=
  h.block.bind h.spells.block h.ends.block h.spells.blockOpens hf fun _ _ => trivial

end

/-! ## Chains -/

abbrev endsChain (kind : TokenKind) : Prop :=
  opensLink kind = false ∧ kind ≠ .question

theorem endsChain_of_stopsExpression {kind : TokenKind} (h : stopsExpression kind = true) : endsChain kind := by
  simp only [stopsExpression, Bool.and_eq_true, Bool.not_eq_true', decide_eq_true_eq] at h
  exact ⟨h.1.1.1.2, h.1.1.2⟩

theorem links_endsBefore : (Links forms).EndsBefore (· ≠ .question) :=
  fun _ _ _ _ hlinks hnext => hlinks.inFront hnext

section

variable (h : g.Resumes forms levels)

include h

theorem resumes_arguments :
    (arguments g).Resumes levels (Arguments forms) (· = .openParen) fun _ => True :=
  .bracketed (h.expr _) (h.spells.expr _) (h.ends.expr _) (h.spells.exprOpens _) rfl rfl rfl rfl

/-- A link that fails is a dot without a name, or a call without its end. -/
theorem resumes_link (start : Position) (object : Expr) :
    (link g start object).ResumesAt (opensLink · = true) levels (Growing (Links forms) (Links forms))
      (opensLink · = true) (· ≠ .question) := by
  intro c d failure hguard room hfailed hmisses
  rw [link, accept_bind] at hfailed
  by_cases hkind : c.kind = .dot
  · rw [if_pos hkind] at hfailed
    have hmember : (advance >>= fun _ => identifier >>= fun property => do
        pure (Expr.member object property (← spanFrom start))).ResumesAt (· = .dot) levels
        (Headed .dot Name) (fun _ => False) (fun _ => True) :=
      .advance rfl fun _ _ => resumes_identifier.last
    obtain ⟨tokens, hreach, hcompletes⟩ := hmember hkind room hfailed hmisses
    refine ⟨tokens, hreach, (hcompletes.imp fun _ _ _ _ hboth => ?_).mono (fun _ => False.elim) fun _ _ => trivial⟩
    obtain ⟨hdot, ⟨hname⟩⟩ := hboth
    exact ⟨(), fun _ _ hlinks => ⟨_, .member hlinks hdot hname⟩⟩
  · rw [if_neg hkind] at hfailed
    simp only [Bool.false_eq_true, if_false] at hfailed
    have hcall : (arguments g >>= fun arguments => do
        let propagate ← accept .question
        pure (Expr.call object arguments propagate (← spanFrom start))).Resumes levels (Arguments forms)
        (· = .openParen) (· ≠ .question) :=
      (resumes_arguments h).last.mono (by decide) (fun _ => id) fun _ _ => trivial
    obtain ⟨tokens, hreach, hcompletes⟩ := hcall.resumes trivial room hfailed hmisses
    refine ⟨tokens, hreach, (hcompletes.imp fun _ _ _ hnext harguments => ?_).mono ?_ fun _ => id⟩
    · exact ⟨(), fun _ _ hlinks => ⟨_, .call hlinks harguments hnext⟩⟩
    · rintro kind rfl
      rfl

theorem resumes_chain : (chain g).Resumes levels (Chain forms) (· = .identifier) endsChain := by
  have hend : endsChain .endOfInput := ⟨rfl, by decide⟩
  have hname : identifier.Resumes levels Name (· = .identifier) endsChain :=
    resumes_identifier.mono hend (fun _ => id) fun _ _ => trivial
  have hchain : identifier.Resumes levels (Chain forms) (· = .identifier) endsChain := by
    refine hname.imp fun _ _ _ hnext hname => ?_
    obtain ⟨hkind⟩ := hname
    exact ⟨_, .intro (.name hkind) hnext.1⟩
  refine ⟨hend, hchain.sample, fun c d failure _ room hfailed hmisses => ?_⟩
  rw [chain, here_bind] at hfailed
  rcases bind_eq_failed.1 hfailed with hfailed | ⟨name, e, hdone, hfailed⟩
  · exact hchain.resumes trivial room hfailed hmisses
  · obtain ⟨_, hpass, ⟨hkind⟩⟩ := (accepts_identifier trivial (Nat.le_of_eq room) name e).1 hdone
    have hmid : ∀ kind, opensLink kind = true → kind ≠ .question := by
      rintro _ hlink rfl
      cases hlink
    obtain ⟨tokens, hreach, hcompletes⟩ : ∃ tokens, c.Reaches tokens d
        ∧ (Links forms).Completes (· = .identifier) (· ≠ .question) tokens := by
      refine ResumesAt.whileAt (resumes_link h c.here) ?_ links_endsBefore links_opens hmid room hpass
        (.name hkind) hfailed hmisses
      intro _ _ _ _ _ hpass hlinks _ hdone
      exact links_of_link h.spells (hpass.depth ▸ Nat.le_of_eq room) hpass hlinks hdone
    have hends : (Links forms).Completes (· = .identifier) endsChain tokens :=
      hcompletes.mono (fun _ => id) fun _ => And.right
    exact ⟨tokens, hreach, hends.imp fun _ _ _ hnext hlinks => ⟨_, .intro hlinks hnext.1⟩⟩

/-! ## Operands -/

/-- A sign without its operand. -/
theorem resumes_signed {sign : TokenKind} (hsign : sign = .dash ∨ sign = .not) :
    (signed g).ResumesAt (· = sign) levels (Operand forms) (fun _ => True) (stopsExpression · = true) := by
  have hend : sign != .endOfInput := by
    rcases hsign with rfl | rfl <;> rfl
  have hboth : (signed g).ResumesAt (· = sign) levels (Headed sign (forms.expr .unary)) (fun _ => False)
      (stopsExpression · = true) :=
    .advance hend fun _ _ => (h.expr .unary).last
  refine (hboth.imp fun _ _ _ _ hform => ?_).mono (fun _ => False.elim) fun _ => id
  obtain ⟨hkind, hoperand⟩ := hform
  rcases hsign with rfl | rfl
  · exact ⟨_, .negate hkind hoperand⟩
  · exact ⟨_, .not hkind hoperand⟩

theorem resumes_group : (group g).Resumes levels (Operand forms) (· = .openParen) fun _ => True := by
  have hboth : (group g).Resumes levels (Headed .openParen (Both (forms.expr .lowest) (Fixed .closeParen)))
      (· = .openParen) fun _ => True := by
    refine .token rfl fun _ => h.exprThen .lowest (fun _ => (Resumes.expectAs rfl _).last) ?_
    rintro _ rfl
    rfl
  refine hboth.imp fun _ _ _ _ hform => ?_
  obtain ⟨hopen, ⟨hinside, ⟨hclose⟩⟩⟩ := hform
  exact ⟨_, .group hopen hinside hclose⟩

theorem resumes_list : (list g).Resumes levels (Operand forms) (· = .openBracket) fun _ => True := by
  have hboth : (list g).Resumes levels (Headed .openBracket (CommaList .closeBracket (forms.expr .lowest)))
      (· = .openBracket) fun _ => True :=
    .token rfl fun _ => (Resumes.commaList (h.expr _) (h.spells.expr _) (h.ends.expr _) (h.spells.exprOpens _)
      rfl rfl rfl).last
  refine hboth.imp fun _ _ _ _ hform => ?_
  obtain ⟨hopen, helements⟩ := hform
  exact ⟨_, .list (.intro hopen helements)⟩

theorem resumes_pair :
    (pair g).Resumes levels (Entry forms) (fun _ => True) (stopsExpression · = true) := by
  have hboth : (pair g).Resumes levels (Both (forms.expr .lowest) (Headed .colon (forms.expr .lowest)))
      (fun _ => True) (stopsExpression · = true) := by
    refine h.exprThen .lowest (fun _ => .token rfl fun _ => (h.expr .lowest).last) ?_
    rintro _ rfl
    rfl
  refine hboth.imp fun _ _ _ _ hform => ?_
  obtain ⟨hkey, ⟨hcolon, hvalue⟩⟩ := hform
  exact ⟨_, .intro hkey hcolon hvalue⟩

theorem resumes_map : (map g).Resumes levels (Operand forms) (· = .openCurly) fun _ => True := by
  have hboth : (map g).Resumes levels (Headed .openCurly (CommaList .closeCurly (Entry forms)))
      (· = .openCurly) fun _ => True :=
    .token rfl fun _ => (Resumes.commaList (resumes_pair h) (accepts_pair h.spells) (entry_endsBefore h.ends)
      (entry_opens h.spells) rfl rfl rfl).last
  refine hboth.imp fun _ _ _ _ hform => ?_
  obtain ⟨hopen, hpairs⟩ := hform
  exact ⟨_, .map (.intro hopen hpairs)⟩

theorem resumes_new : (new g).Resumes levels (Operand forms) (· = .kwNew) fun _ => True := by
  have hboth : (new g).Resumes levels (Headed .kwNew (Headed .identifier (Arguments forms))) (· = .kwNew)
      fun _ => True :=
    .token rfl fun _ => resumes_nameThen fun _ => (resumes_arguments h).last
  refine hboth.imp fun _ _ _ _ hform => ?_
  obtain ⟨hnew, ⟨hname, harguments⟩⟩ := hform
  exact ⟨_, .new hnew hname harguments⟩

/-! ## Arms -/

/-- The body of an arm that is missing altogether is an empty block. -/
theorem resumes_armBody :
    (armBody g).Resumes levels (Body forms) (· = .openCurly) (stopsExpression · = true) := by
  have hblock : (ArmBody.block <$> g.block).Resumes levels (Body forms) (· = .openCurly)
      (stopsExpression · = true) :=
    (h.block.map.imp fun _ _ _ _ hblock => ⟨_, .block hblock⟩).mono rfl (fun _ => id) fun _ _ => trivial
  have harrow : (advance >>= fun _ => ArmBody.expr <$> g.expr .lowest).ResumesAt (· = .arrow) levels (Body forms)
      (· = .openCurly) (stopsExpression · = true) := by
    have hheaded : (advance >>= fun _ => ArmBody.expr <$> g.expr .lowest).ResumesAt (· = .arrow) levels
        (Headed .arrow (forms.expr .lowest)) (fun _ => False) (stopsExpression · = true) :=
      .advance rfl fun _ _ => (h.expr .lowest).map
    refine (hheaded.imp fun _ _ _ _ hform => ?_).mono (fun _ => False.elim) fun _ => id
    obtain ⟨hkind, hvalue⟩ := hform
    exact ⟨_, .expr hkind hvalue⟩
  refine .ofKind rfl hblock.sample fun kind => ?_
  split
  · exact harrow
  · exact hblock.resumesAt
  · exact .unexpected hblock.sample _

theorem resumes_arm {keyword : TokenKind} (hkeyword : keyword != .endOfInput) :
    (arm g).ResumesAt (· = keyword) levels (Case forms keyword) (fun _ => False) (stopsExpression · = true) := by
  have hboth : (arm g).ResumesAt (· = keyword) levels (Headed keyword (Both (forms.expr .lowest) (Body forms)))
      (fun _ => False) (stopsExpression · = true) := by
    refine .advance hkeyword fun _ _ => h.exprThen .lowest (fun _ => (resumes_armBody h).last) ?_
    rintro _ rfl
    rfl
  refine hboth.imp fun _ _ _ _ hform => ?_
  obtain ⟨hkind, ⟨hpattern, hbody⟩⟩ := hform
  exact ⟨_, .intro hkind hpattern hbody⟩

theorem resumes_choice :
    (choice g).Resumes levels (Operand forms) (· = .kwMatch) (stopsExpression · = true) := by
  have hstops {kind : TokenKind} (hkind : stopsExpression kind = true) :
      opensCase kind = false ∧ kind ≠ .kwDefault := by
    simp only [stopsExpression, Bool.and_eq_true, Bool.not_eq_true', decide_eq_true_eq] at hkind
    exact ⟨hkind.1.2, hkind.2⟩
  have hgo (kind : TokenKind) : opensCase kind = true ↔ kind = .kwCase := by
    rw [opensCase, decide_eq_true_iff]
  have hcase : (arm g).ResumesAt (opensCase · = true) levels (Case forms .kwCase) (fun _ => False)
      (stopsExpression · = true) :=
    (resumes_arm h rfl).of_guard fun kind => (hgo kind).1
  have haccepts : (arm g).AcceptsAt (opensCase · = true) levels (Case forms .kwCase) :=
    fun _ hguard => accepts_arm h.spells rfl ((hgo _).1 hguard)
  have hfallback : (ifAt .kwDefault (arm g)).Resumes levels (Clause .kwDefault (Case forms .kwDefault))
      (stopsExpression · = true) (stopsExpression · = true) :=
    (Resumes.ifAt (resumes_arm h rfl) rfl rfl).mono rfl (fun _ hkind => hkind.elim False.elim And.left)
      fun _ hkind => ⟨hkind, (hstops hkind).2⟩
  have hboth : (choice g).Resumes levels (Headed .kwMatch (Both (forms.expr .lowest)
      (Both (Many opensCase (Case forms .kwCase)) (Clause .kwDefault (Case forms .kwDefault)))))
      (· = .kwMatch) (stopsExpression · = true) := by
    have hfirst : (Case forms .kwCase).Opens (opensCase · = true) := case_opens.imp fun kind => (hgo kind).2
    exact .token rfl fun _ => h.exprThen .lowest (fun _ => .manyThen hcase haccepts hfirst
      (case_endsBefore h.ends _) rfl rfl (fun _ => hfallback.last) fun _ hkind => ⟨hkind, (hstops hkind).1⟩)
      fun _ => And.left
  refine hboth.imp fun _ _ _ _ hform => ?_
  obtain ⟨hkind, ⟨hscrutinee, ⟨hcases, hfallback⟩⟩⟩ := hform
  exact ⟨_, .choice hkind hscrutinee hcases hfallback⟩

/-! ## Functions without a name -/

theorem resumes_lambda :
    (lambda g).Resumes levels (Operand forms) (· = .kwLambda) (stopsExpression · = true) := by
  have hboth : (lambda g).Resumes levels (Headed .kwLambda (Both Parameters (Headed .arrow (forms.expr .lowest))))
      (· = .kwLambda) (stopsExpression · = true) :=
    .token rfl fun _ => resumes_parameters.bind accepts_parameters bracketed_endsBefore bracketed_opens
      (fun _ => .token rfl fun _ => (h.expr .lowest).last) fun _ _ => trivial
  refine hboth.imp fun _ _ _ _ hform => ?_
  obtain ⟨hkind, ⟨hparameters, ⟨harrow, hbody⟩⟩⟩ := hform
  exact ⟨_, .lambda hkind hparameters harrow hbody⟩

theorem resumes_anonymousFunction :
    (anonymousFunction g).Resumes levels (Operand forms) (· = .kwFn) fun _ => True := by
  have hboth : (anonymousFunction g).Resumes levels (Headed .kwFn (Both Parameters forms.block)) (· = .kwFn)
      fun _ => True :=
    .token rfl fun _ => resumes_parameters.bind accepts_parameters bracketed_endsBefore bracketed_opens
      (fun _ => h.block.last) fun _ _ => trivial
  refine hboth.imp fun _ _ _ _ hform => ?_
  obtain ⟨hkind, ⟨hparameters, hbody⟩⟩ := hform
  exact ⟨_, .function hkind hparameters hbody⟩

/-! ## Operands of every kind -/

omit h in
/-- A number stands wherever an operand is missing. -/
theorem completes_operand {ends : TokenKind → Prop} : (Operand forms).Completes (fun _ => True) ends [] := by
  have hnumber (next : Token) : Operand forms [TokenKind.number.sample] next (.number 1 default) :=
    .literal (.number rfl rfl)
  refine ⟨[TokenKind.number.sample], List.forall_mem_singleton.2 (by decide), fun next _ => ?_⟩
  exact ⟨⟨_, hnumber next⟩, fun _ => trivial⟩

omit h in
/-- A literal that fails is a number out of range, and no token mends that. -/
theorem resumes_literal {opens ends : TokenKind → Prop} :
    literal.ResumesAt (·.operandForm? = some .literal) levels (Operand forms) opens ends := by
  intro c d failure hguard _ hfailed hmisses
  rw [TapePair.literal_apply] at hfailed
  rcases literal_kinds hguard with hkind | hkind | hkind | hkind
  · rw [show c.current.kind = .number from hkind] at hfailed
    simp only [TapePair.numeral] at hfailed
    split at hfailed
    · cases hfailed
    · cases hfailed
      rcases hmisses.category with hcategory | hcategory <;> cases hcategory
  all_goals
    rw [show c.current.kind = _ from hkind] at hfailed
    cases hfailed

/-- One reading for each kind of operand, as the token it starts at says. -/
theorem resumes_operandOf (form : OperandForm) :
    (operandOf g form).ResumesAt (·.operandForm? = some form) levels (Operand forms) (fun _ => True)
      (stopsExpression · = true) := by
  cases form with
  | literal => exact resumes_literal
  | chain =>
    have hchain : (chain g).ResumesAt (·.operandForm? = some .chain) levels (Chain forms) (fun _ => True)
        (stopsExpression · = true) := (resumes_chain h).anywhere fun _ => endsChain_of_stopsExpression
    exact hchain.imp fun _ _ _ _ hchain => ⟨_, .chain hchain⟩
  | signed =>
    intro c d failure hguard room
    have hsign : c.kind = .dash ∨ c.kind = .not := by
      revert hguard
      cases c.kind <;> simp [TokenKind.operandForm?]
    exact resumes_signed h hsign rfl room
  | list => exact (resumes_list h).anywhere fun _ _ => trivial
  | map => exact (resumes_map h).anywhere fun _ _ => trivial
  | group => exact (resumes_group h).anywhere fun _ _ => trivial
  | new => exact (resumes_new h).anywhere fun _ _ => trivial
  | choice => exact (resumes_choice h).anywhere fun _ => id
  | lambda => exact (resumes_lambda h).anywhere fun _ => id
  | function => exact (resumes_anonymousFunction h).anywhere fun _ _ => trivial

theorem resumes_operand :
    (operand g).Resumes levels (Operand forms) (fun _ => True) (stopsExpression · = true) := by
  refine .ofKind rfl completes_operand fun kind => ?_
  split
  · next form hform =>
    apply (resumes_operandOf h form).of_guard
    rintro _ rfl
    exact hform
  · exact .unexpected completes_operand _

/-! ## Operators -/

/-- An operator without its operand. -/
theorem resumes_nextOperation (power : BindingPower) (left : Expr) :
    (nextOperation g left).ResumesAt (bindsTighter power · = true) levels
      (Growing (Operated forms power) (Operated forms power)) (fun _ => False) (stopsExpression · = true) := by
  intro c d failure hgo room hfailed hmisses
  obtain ⟨op, hop⟩ := exists_operator hgo
  have hoperation : (operation g op.bindingPower left).ResumesAt (· = c.kind) levels
      (Headed c.kind (forms.expr op.bindingPower)) (fun _ => False) (stopsExpression · = true) := by
    apply ResumesAt.advance (bne_iff_ne.2 (kind_of_bindsTighter hgo))
    intro token hkind
    rw [hkind, hop]
    exact (h.expr _).last
  rw [nextOperation_eq_operation hop] at hfailed
  obtain ⟨tokens, hreach, hcompletes⟩ := hoperation rfl room hfailed hmisses
  refine ⟨tokens, hreach, hcompletes.imp fun _ _ _ _ hform => ⟨(), fun _ _ hoperated => ?_⟩⟩
  obtain ⟨hkind, hright⟩ := hform
  rw [← hkind] at hgo hop
  exact ⟨_, .binary hoperated hgo hop hright⟩

omit h in
/-- What goes on with operators and their operands goes on with the expression. -/
theorem completes_operated {power : BindingPower} {opens : TokenKind → Prop} {tokens : List Token}
    (h : (Operated forms power).Completes opens (stopsExpression · = true) tokens) :
    (Expression forms power).Completes opens (stopsExpression · = true) tokens :=
  h.imp fun _ _ _ hnext hform => ⟨_, .intro hform (bindsTighter_of_stopsExpression hnext power)⟩

omit h in
theorem completes_expression (power : BindingPower) :
    (Expression forms power).Completes (fun _ => True) (stopsExpression · = true) [] :=
  completes_operated (completes_operand.imp fun _ _ _ _ hform => ⟨_, .operand hform⟩)

theorem resumes_operations (power : BindingPower) :
    (operations g power).Resumes levels (Expression forms power) (fun _ => True) (stopsExpression · = true) := by
  have hoperand : (operand g).Resumes levels (Operated forms power) (fun _ => True) (stopsExpression · = true) :=
    (resumes_operand h).imp fun _ _ _ _ hform => ⟨_, .operand hform⟩
  refine ⟨rfl, completes_expression power, fun c d failure _ room hfailed hmisses => ?_⟩
  rw [operations] at hfailed
  rcases bind_eq_failed.1 hfailed with hfailed | ⟨first, e, hdone, hfailed⟩
  · obtain ⟨tokens, hreach, hcompletes⟩ := hoperand.resumes trivial room hfailed hmisses
    exact ⟨tokens, hreach, completes_operated hcompletes⟩
  · obtain ⟨tokens, hpass, hform⟩ := (accepts_operand h.spells trivial (Nat.le_of_eq room) first e).1 hdone
    obtain ⟨tokens, hreach, hcompletes⟩ : ∃ tokens, c.Reaches tokens d
        ∧ (Operated forms power).Completes (fun _ => True) (stopsExpression · = true) tokens := by
      refine ResumesAt.whileAt (resumes_nextOperation h power) ?_ (operated_endsBefore h.ends power) operated_opens
        (fun _ => False.elim) room hpass (.operand hform) hfailed hmisses
      intro _ _ _ _ _ hpass hoperated hgo hdone
      exact operated_of_operation h.spells (hpass.depth ▸ Nat.le_of_eq room) hpass hoperated hgo hdone
    exact ⟨tokens, hreach, completes_operated hcompletes⟩

end

end Grammar

end WattFront
