import WattFront.Proofs.Grammar.ResumingStatements

/-! # Items that more tokens mend

As for statements. Two things are peculiar to the items of a program: a list of imports may not be empty, so
one is put into it, and a bare chain is refused only when it has been read, so it becomes the target of a
definition.
-/

namespace WattFront.Grammar

open Spelling Reading

variable {levels : Nat}

/-! ## Imports -/

theorem resumes_singleImport : singleImport.Resumes levels SingleImport (· = .string) (· ≠ .kwWith) := by
  have hword : (do let _ ← advance; identifier : Reading Ident).ResumesAt (· = .kwWith) levels
      (Headed .kwWith Name) (fun _ => False) fun _ => True := .advance rfl fun _ _ => resumes_identifier
  have halias : (do let _ ← advance; identifier : Reading Ident).ResumesAt (· = .kwWith) levels Alias
      (fun _ => False) fun _ => True := by
    refine hword.imp fun _ _ _ _ hform => ?_
    obtain ⟨hkind, ⟨hname⟩⟩ := hform
    exact ⟨_, .intro hkind hname⟩
  have hclause := Resumes.ifAt halias rfl trivial
  have hheaded : singleImport.Resumes levels (Headed .string (Clause .kwWith Alias)) (· = .string) (· ≠ .kwWith) :=
    .token rfl fun _ => hclause.last.mono (by decide) (fun _ => id) fun _ hkind => ⟨trivial, hkind⟩
  refine hheaded.imp fun _ _ _ _ hform => ?_
  obtain ⟨hpath, halias⟩ := hform
  exact ⟨_, .intro hpath halias⟩

/-- Imports in parentheses. Where nothing but the closing one stands, an import is put in front of it. -/
theorem resumes_importList :
    importList.ResumesAt (· = .openParen) levels Imports (fun _ => False) fun _ => True := by
  have hclosed : (do
      let items ← separated singleImport
      let _ ← expect .closeParen
      pure items : Reading (List Import)).Resumes levels (Both (Separated SingleImport) (Fixed .closeParen))
      (· = .string) fun _ => True :=
    .closed resumes_singleImport accepts_singleImport singleImport_endsBefore singleImport_opens rfl (by decide) rfl
  have hlist : (do
      if (← kind) = .closeParen then unexpected TokenKind.string.describe
      else commaList .closeParen singleImport : Reading (List Import)).Resumes levels
      (Both (Separated SingleImport) (Fixed .closeParen)) (· = .string) fun _ => True := by
    refine .ofKind trivial hclosed.sample fun kind => ?_
    split
    · exact .unexpected hclosed.sample _
    · next hopen =>
      rintro c d failure rfl room hfailed hmisses
      rw [commaList, kind_bind, if_neg hopen] at hfailed
      exact hclosed.resumes trivial room hfailed hmisses
  have hheaded : importList.ResumesAt (· = .openParen) levels
      (Headed .openParen (Both (Separated SingleImport) (Fixed .closeParen))) (fun _ => False) fun _ => True :=
    .advance rfl fun _ _ => hlist
  refine hheaded.imp fun _ _ _ _ hform => ?_
  obtain ⟨hopen, ⟨himports, ⟨hclose⟩⟩⟩ := hform
  exact ⟨_, .list hopen himports hclose⟩

theorem resumes_imports {forms : Spelling.Inner} :
    (Item.statement <$> imports).Resumes levels (Spelling.Item forms) (· = .kwImport) (· ≠ .kwWith) := by
  have hone : singleImport.Resumes levels Imports (· = .string) (· ≠ .kwWith) :=
    resumes_singleImport.imp fun _ _ _ _ himport => ⟨_, .one himport⟩
  have hheaded : imports.Resumes levels (Headed .kwImport Imports) (· = .kwImport) (· ≠ .kwWith) := by
    refine .token rfl fun token => .ofKind (by decide) hone.sample fun kind => ?_
    split
    · next hopen =>
      exact (resumes_importList.last.mono (fun _ => False.elim) fun _ _ => trivial).of_guard
        fun _ hkind => hkind.trans hopen
    · exact hone.last.resumesAt
  refine hheaded.map.imp fun _ _ _ _ hform => ?_
  obtain ⟨hkind, himports⟩ := hform
  exact ⟨_, .imports hkind himports⟩

/-! ## The traits of a type -/

abbrev endsTraits (kind : TokenKind) : Prop :=
  kind ≠ .identifier ∧ kind ≠ .comma

theorem resumes_traitNames : traitNames.Resumes levels TraitNames (fun _ => True) endsTraits := by
  have hnone : TraitNames.Completes (fun _ => True) endsTraits [] :=
    ⟨[], List.forall_mem_nil _, fun _ hnext => ⟨⟨[], .nil hnext.1⟩, fun _ => trivial⟩⟩
  have hnames : (separated identifier).Resumes levels TraitNames (· = .identifier)
      fun kind => True ∧ kind ≠ .comma :=
    (Resumes.separated resumes_identifier accepts_identifier name_endsBefore name_opens).imp
      fun _ _ _ _ hnames => ⟨_, .cons hnames⟩
  refine .ofKind (by decide) hnone fun kind => ?_
  split
  · exact hnames.anywhere fun _ hkind => ⟨trivial, hkind.2⟩
  · intro c d failure _ _ hfailed
    cases hfailed

theorem resumes_traits {ends : TokenKind → Prop} (hend : ends .endOfInput)
    (hends : ∀ kind, ends kind → endsTraits kind) : traits?.Resumes levels Traits ends ends := by
  refine ⟨hend, ?_, fun c d failure _ room hfailed hmisses => ?_⟩
  · refine ⟨[], List.forall_mem_nil _, fun next hnext => ⟨⟨none, .none ?_⟩, fun _ => hnext⟩⟩
    exact fun himpl => (hends _ hnext).1 himpl.1
  · rw [traits?, cursor_bind] at hfailed
    split at hfailed
    · next hword =>
      rw [atWord_impl] at hword
      have hpass : c.Passes [c.current] c.next := .next c (by simp [Cursor.kind, hword.1])
      rw [advance_bind, map_eq_failed] at hfailed
      obtain ⟨others, hreach, more, hinside, hmore⟩ :=
        resumes_traitNames.resumes trivial (hpass.depth ▸ room) hfailed hmisses
      refine ⟨c.current :: others, hreach.after hpass, more, hinside, fun next hnext => ?_⟩
      obtain ⟨⟨names, hnames⟩, -⟩ := hmore (hends _ hnext)
      exact ⟨⟨some names, .some hword hnames⟩, fun hnil => absurd hnil (List.cons_ne_nil _ _)⟩
    · cases hfailed

section

variable {g : Grammar.Inner} {forms : Spelling.Inner} (h : g.Resumes forms levels)

include h

/-! ## Definitions -/

theorem resumes_method : (method g).Resumes levels (Named forms) (· = .kwFn)
    fun kind => kind ≠ .openParen ∧ kind ≠ .openCurly := by
  have hfunction := resumes_function h
  refine .ofKind hfunction.atEnd hfunction.sample fun kind => ?_
  split
  · exact hfunction.resumesAt
  · exact .unexpected hfunction.sample _

theorem resumes_trait : (trait g).Resumes levels
    (fun tokens next t => Defined forms tokens next (.trait t)) (· = .kwTrait) fun _ => True := by
  have hmethod : (method g).ResumesAt (insideBraces · = true) levels (Named forms) (· = .kwFn)
      fun kind => kind ≠ .openParen ∧ kind ≠ .openCurly := (resumes_method h).resumesAt
  have hfirst : (Named forms).Opens (insideBraces · = true) := by
    refine named_opens.imp fun kind hkind => ?_
    rw [hkind]
    rfl
  have hheaded : (trait g).Resumes levels (Headed .kwTrait (Headed .identifier (Headed .openCurly
      (Both (Many insideBraces (Named forms)) (Fixed .closeCurly))))) (· = .kwTrait) fun _ => True := by
    refine .token rfl fun _ => resumes_nameThen fun _ => .token rfl fun _ => .manyThen hmethod
      (accepts_method h.spells).at hfirst (named_endsBefore h.ends) rfl (by decide)
      (fun _ => (Resumes.expectAs rfl _).last) ?_
    rintro _ rfl
    exact ⟨by decide, rfl⟩
  refine hheaded.imp fun _ _ _ _ hform => ?_
  obtain ⟨hkind, ⟨hname, ⟨hbrace, ⟨hmethods, ⟨hclose⟩⟩⟩⟩⟩ := hform
  exact ⟨_, .trait hkind hname hbrace hmethods hclose⟩

theorem resumes_type : (type g).Resumes levels
    (fun tokens next t => Defined forms tokens next (.type t)) (· = .kwType) (stopsItem · = true) := by
  have hstops {kind : TokenKind} (hkind : stopsItem kind = true) :
      (endsTraits kind ∧ kind ≠ .openParen) ∧ kind ≠ .openCurly := by
    simp only [stopsItem, stopsStatement, stopsExpression, opensLink, Bool.and_eq_true, Bool.not_eq_true',
      Bool.or_eq_false_iff, decide_eq_true_eq, decide_eq_false_iff_not] at hkind
    obtain ⟨⟨⟨⟨⟨⟨⟨⟨⟨⟨⟨⟨-, -, hparen⟩, -⟩, -⟩, -⟩, -⟩, -⟩, hbrace⟩, -⟩, -⟩, hname⟩, hcomma⟩, -⟩ := hkind
    exact ⟨⟨⟨hname, hcomma⟩, hparen⟩, hbrace⟩
  have hbody : (ifAt .openCurly g.block).Resumes levels (Clause .openCurly forms.block)
      (fun kind => endsTraits kind ∧ kind ≠ .openParen) (stopsItem · = true) := by
    refine (resumes_body h (stopsItem · = true) rfl).mono rfl ?_ fun _ hkind => ⟨hkind, (hstops hkind).2⟩
    rintro kind (rfl | ⟨hkind, -⟩)
    · decide
    · exact (hstops hkind).1
  have htraits : traits?.Resumes levels Traits (fun kind => endsTraits kind ∧ kind ≠ .openParen)
      fun kind => endsTraits kind ∧ kind ≠ .openParen := resumes_traits (by decide) fun _ => And.left
  have hends : Traits.EndsBefore fun kind => endsTraits kind ∧ kind ≠ .openParen :=
    traits_endsBefore.imp fun _ => And.left
  have hparameters : parameters.ResumesAt (· = .openParen) levels Parameters (· = .openParen) fun _ => True :=
    resumes_parameters.resumesAt
  have hheaded : (type g).Resumes levels (Headed .kwType (Headed .identifier (Both (Clause .openParen Parameters)
      (Both Traits (Clause .openCurly forms.block))))) (· = .kwType) (stopsItem · = true) :=
    .token rfl fun _ => resumes_nameThen fun _ => .clauseThen hparameters accepts_parameters.at bracketed_opens
      bracketed_endsBefore rfl trivial
      (fun _ => htraits.bind_of_le accepts_traits? hends (fun _ => hbody.last) (fun _ => id) fun _ _ _ _ => id)
      fun _ hkind => ⟨trivial, hkind.2⟩
  refine hheaded.imp fun _ _ _ _ hform => ?_
  obtain ⟨hkind, ⟨hname, ⟨hparameters, ⟨htraits, hbody⟩⟩⟩⟩ := hform
  exact ⟨_, .type hkind hname hparameters htraits hbody⟩

theorem resumes_unit : (unit g).Resumes levels
    (fun tokens next u => Defined forms tokens next (.unit u)) (· = .kwUnit) (· ≠ .openCurly) := by
  have hbody := (resumes_body h (fun _ => True) trivial).mono (by decide) (fun _ => id) fun _ hkind => ⟨trivial, hkind⟩
  have hheaded : (unit g).Resumes levels (Headed .kwUnit (Headed .identifier (Clause .openCurly forms.block)))
      (· = .kwUnit) (· ≠ .openCurly) :=
    .token rfl fun _ => resumes_nameThen fun _ => hbody.last
  refine hheaded.imp fun _ _ _ _ hform => ?_
  obtain ⟨hkind, ⟨hname, hbody⟩⟩ := hform
  exact ⟨_, .unit hkind hname hbody⟩

/-! ## Statements at top level -/

/-- A bare chain is refused behind its last token, where a mark and a value make a definition of it. -/
theorem resumes_topLevelChain :
    (topLevelChain g).Resumes levels (Alone forms) (· = .identifier) (stopsExpression · = true) := by
  have hstatement := resumes_chainStatement h
  refine ⟨rfl, hstatement.sample, fun c d failure _ room hfailed hmisses => ?_⟩
  rw [topLevelChain, cursor_bind] at hfailed
  rcases bind_eq_failed.1 hfailed with hfailed | ⟨s, e, hdone, hfailed⟩
  · exact hstatement.resumes trivial room hfailed hmisses
  · by_cases hexpression : isExpression s = true
    · rw [if_pos hexpression] at hfailed
      cases hfailed
      rcases (chainStatement_eq_done_iff h.spells (Nat.le_of_eq room)).1 hdone with
        ⟨_, _, _, _, _, _, _, _, _, rfl⟩ | ⟨_, _, _, _, _, _, _, _, _, _, rfl⟩
        | ⟨tokens, target, hpass, htarget, -⟩
      · cases hexpression
      · cases hexpression
      · have hmid : ∀ kind, kind = .define → endsChain kind := by
          rintro _ rfl
          exact ⟨rfl, by decide⟩
        have hne : tokens ≠ [] := by
          obtain ⟨first, rest, rfl, -⟩ := chain_opens htarget
          exact List.cons_ne_nil _ _
        obtain ⟨tokens, hreach, hcompletes⟩ := (completes_mark h).after hpass htarget chain_endsBefore
          (.refl d) hmid fun hnil => absurd hnil hne
        exact ⟨tokens, hreach, hcompletes.grown⟩
    · rw [if_neg hexpression] at hfailed
      cases hfailed

theorem resumes_topLevelStatement :
    (topLevelStatement g).ResumesAt (·.itemForm? = none) levels (Alone forms) (fun _ => True)
      (stopsStatement · = true) := by
  intro c d failure hguard room hfailed hmisses
  rw [topLevelStatement_apply] at hfailed
  split at hfailed
  · cases hfailed
    exact ⟨[], .refl c, completes_alone h⟩
  · next hloop =>
    rw [not_or] at hloop
    split at hfailed
    · have hchain : (topLevelChain g).Resumes levels (Alone forms) (fun _ => True) (stopsStatement · = true) :=
        (resumes_topLevelChain h).mono rfl (fun _ _ => trivial) fun _ => stopsExpression_of_stopsStatement
      exact hchain.resumes trivial room hfailed hmisses
    · next hname =>
      rw [statement_apply, if_neg hname] at hfailed
      split at hfailed
      · next form hform =>
        -- The statements that may not stand alone have been refused, or they have been read as items.
        have hword : (statementOf g form).ResumesAt (·.itemForm? = none) levels (Worded forms form) (fun _ => True)
            (stopsStatement · = true) := resumes_statementOf h form
        obtain ⟨tokens, hreach, hcompletes⟩ := hword hguard room hfailed hmisses
        refine ⟨tokens, hreach, hcompletes.imp fun _ _ s _ hworded => ⟨s, hworded.1, ?_⟩⟩
        rcases hworded.2 with halone | rfl | rfl | rfl
        · exact halone
        all_goals
          exfalso
          revert hform hguard hloop
          cases c.kind <;> simp [TokenKind.statementForm?, TokenKind.itemForm?]
      · cases hfailed
        exact ⟨[], .refl c, completes_alone h⟩

/-! ## Items of every kind -/

theorem resumes_itemOf {guard : TokenKind → Prop} (form : ItemForm) :
    (itemOf g form).ResumesAt guard levels (Spelling.Item forms) (fun _ => True) (stopsItem · = true) := by
  have hstops {kind : TokenKind} (hkind : stopsItem kind = true) :
      kind ≠ .openParen ∧ kind ≠ .openCurly ∧ kind ≠ .kwWith := by
    refine ⟨?_, ?_, ?_⟩
    all_goals
      rintro rfl
      cases hkind
  cases form with
  | function =>
    have hfunction := (resumes_function h).map (k := fun d => Item.definition (.function d))
    refine ResumesAt.imp (hfunction.anywhere fun _ hkind => ⟨(hstops hkind).1, (hstops hkind).2.1⟩) ?_
    exact fun _ _ _ _ hnamed => ⟨_, .definition (.function hnamed)⟩
  | trait =>
    refine ResumesAt.imp ((resumes_trait h).map.anywhere fun _ _ => trivial) ?_
    exact fun _ _ _ _ htrait => ⟨_, .definition htrait⟩
  | type =>
    refine ResumesAt.imp ((resumes_type h).map.anywhere fun _ => id) ?_
    exact fun _ _ _ _ htype => ⟨_, .definition htype⟩
  | unit =>
    refine ResumesAt.imp ((resumes_unit h).map.anywhere fun _ hkind => (hstops hkind).2.1) ?_
    exact fun _ _ _ _ hunit => ⟨_, .definition hunit⟩
  | imports => exact resumes_imports.anywhere fun _ hkind => (hstops hkind).2.2

theorem resumes_item :
    (item g).Resumes levels (Spelling.Item forms) (fun _ => True) (stopsItem · = true) := by
  have hsample : (Spelling.Item forms).Completes (fun _ => True) (stopsItem · = true) [] := by
    refine Form.Completes.imp ((completes_alone h).mono (fun _ => id) fun _ => stopsStatement_of_stopsItem) ?_
    exact fun _ _ _ _ halone => ⟨_, .statement halone.1 halone.2⟩
  have hread := resumes_topLevelStatement h
  have hstatement : (Item.statement <$> topLevelStatement g).ResumesAt (·.itemForm? = none) levels
      (Spelling.Item forms) (fun _ => True) (stopsItem · = true) := by
    refine ResumesAt.imp (hread.map.mono (fun _ => id) fun _ => stopsStatement_of_stopsItem) ?_
    exact fun _ _ _ _ halone => ⟨_, .statement halone.1 halone.2⟩
  refine .ofKind rfl hsample fun kind => ?_
  split
  · exact resumes_itemOf h _
  · next hform =>
    apply hstatement.of_guard
    rintro _ rfl
    exact hform

end

end WattFront.Grammar
