import WattFront.Proofs.Grammar.StatementForms

/-! # The readings of items have their forms

The optional clauses of a definition are taken greedily, and a statement at top level is a statement of a
block that may stand alone. `accepts_item` collects both.
-/

namespace WattFront.Grammar

open Spelling Reading

variable {levels : Nat} {c d : Cursor}

/-! ## Imports -/

theorem accepts_alias :
    (do let _ ← advance; identifier : Reading Ident).AcceptsAt (· = .kwWith) levels Alias := by
  intro c hguard room name d
  rw [advance_bind_iff (by simp [hguard])]
  constructor
  · rintro ⟨first, c₁, hfirst, hkind, hname⟩
    obtain ⟨_, hpass, hform⟩ := (accepts_identifier trivial (hfirst.room room) _ _).1 hname
    obtain ⟨hident⟩ := hform
    exact ⟨_, hfirst.cons hpass, .intro (hkind.trans hguard) hident⟩
  · rintro ⟨_, hpass, hform⟩
    obtain ⟨hword, hident⟩ := hform
    obtain ⟨c₁, hfirst, hname⟩ := hpass.uncons
    refine ⟨_, c₁, hfirst, hpass.kind.symm, ?_⟩
    exact (accepts_identifier trivial (hfirst.room room) _ _).2 ⟨_, hname, .intro hident⟩

theorem alias_opens : Alias.Opens (· = .kwWith) := by
  intro tokens next name hform
  obtain ⟨hfirst, _⟩ := hform
  exact ⟨_, _, rfl, hfirst⟩

theorem accepts_singleImport : singleImport.Accepts levels SingleImport := by
  have hclause : (ifAt .kwWith (do let _ ← advance; identifier)).Accepts levels _ :=
    accepts_ifAt alias_opens accepts_alias
  intro c _ room i d
  rw [singleImport, expect_bind_iff .string rfl]
  constructor
  · rintro ⟨path, c₁, hpath, hkind, hrest⟩
    obtain ⟨tokens, alias?, c₂, htokens, halias, hdone⟩ := (hclause.bind_iff (hpath.room room)).1 hrest
    obtain ⟨rfl, rfl⟩ := spanFrom_pure_eq_done.1 hdone
    have hall := hpath.cons htokens
    rw [hall.spanFrom]
    exact ⟨_, hall, .intro hkind halias⟩
  · rintro ⟨_, hpass, hform⟩
    obtain ⟨hkind, halias⟩ := hform
    obtain ⟨c₁, hpath, htokens⟩ := hpass.uncons
    refine ⟨_, c₁, hpath, hkind, (hclause.bind_iff (hpath.room room)).2 ⟨_, _, d, htokens, halias, ?_⟩⟩
    exact spanFrom_pure_eq_done.2 ⟨by rw [hpass.spanFrom], rfl⟩

theorem singleImport_opens : SingleImport.Opens (· = .string) := by
  intro tokens next i hform
  obtain ⟨hpath, _⟩ := hform
  exact ⟨_, _, rfl, hpath⟩

theorem accepts_importList : importList.AcceptsAt (· = .openParen) levels Imports := by
  have hlist : (commaList .closeParen singleImport).Accepts levels
      (CommaList .closeParen SingleImport) := by
    refine accepts_commaList rfl (singleImport_opens.imp ?_) accepts_singleImport
    intro kind hkind
    simp [hkind]
  intro c hguard room imports d
  rw [importList, advance_bind_iff (by simp [hguard])]
  constructor
  · rintro ⟨first, c₁, hfirst, hkind, hrest⟩
    rw [kind_bind] at hrest
    split at hrest
    · exact absurd hrest not_unexpected_eq_done
    · next hsome =>
      obtain ⟨tokens, hpass, hform⟩ := (hlist trivial (hfirst.room room) _ _).1 hrest
      cases hform with
      | nil hclose => exact absurd (hpass.kind.trans hclose) hsome
      | cons himports hclose =>
        exact ⟨_, hfirst.cons hpass, .list (hkind.trans hguard) himports hclose⟩
  · rintro ⟨tokens, hpass, hform⟩
    cases hform with
    | one hsingle =>
      obtain ⟨path, others, rfl, hpath⟩ := singleImport_opens hsingle
      exact absurd (hpass.kind.symm.trans hguard) (by simp [hpath])
    | list hopen himports hclose =>
      obtain ⟨c₁, hfirst, hrest⟩ := hpass.uncons
      refine ⟨_, c₁, hfirst, hpass.kind.symm, ?_⟩
      obtain ⟨path, others, rfl, hpath⟩ := separated_opens singleImport_opens himports
      rw [kind_bind, if_neg (by simp [hrest.kind, hpath])]
      exact (hlist trivial (hfirst.room room) _ _).2 ⟨_, hrest, .cons himports hclose⟩

theorem imports_eq_done_iff {s : Stmt} (room : c.depth + levels ≤ maxNesting) :
    imports c = .done s d ↔
      ∃ first tokens list, c.Passes (first :: tokens) d ∧ first.kind = .kwImport
        ∧ Imports tokens d.current list ∧ s = .imports list (.cover (first :: tokens)) := by
  rw [imports, expect_bind_iff .kwImport rfl]
  constructor
  · rintro ⟨first, c₁, hfirst, hkind, hrest⟩
    rw [kind_bind] at hrest
    split at hrest
    · next hopen =>
      obtain ⟨tokens, list, c₂, hpass, hlist, hdone⟩ :=
        (accepts_importList.bind_iff hopen (hfirst.room room)).1 hrest
      obtain ⟨rfl, rfl⟩ := spanFrom_pure_eq_done.1 hdone
      exact ⟨first, tokens, list, hfirst.cons hpass, hkind, hlist,
        by rw [(hfirst.cons hpass).spanFrom]⟩
    · obtain ⟨tokens, i, c₂, hpass, hsingle, hdone⟩ :=
        (accepts_singleImport.bind_iff (hfirst.room room)).1 hrest
      rw [pure_bind] at hdone
      obtain ⟨rfl, rfl⟩ := spanFrom_pure_eq_done.1 hdone
      exact ⟨first, tokens, [i], hfirst.cons hpass, hkind, .one hsingle,
        by rw [(hfirst.cons hpass).spanFrom]⟩
  · rintro ⟨first, tokens, list, hpass, hkind, hform, hs⟩
    obtain ⟨c₁, hfirst, hrest⟩ := hpass.uncons
    refine ⟨first, c₁, hfirst, hkind, ?_⟩
    rw [kind_bind]
    have hspan : Stmt.imports list (d.spanFrom first.span.start) = s ∧ d = d :=
      ⟨by rw [hpass.spanFrom, hs], rfl⟩
    cases hform with
    | one hsingle =>
      obtain ⟨path, others, rfl, hpath⟩ := singleImport_opens hsingle
      rw [if_neg (by simp [hrest.kind, hpath])]
      exact (accepts_singleImport.bind_iff (hfirst.room room)).2
        ⟨_, _, d, hrest, hsingle, spanFrom_pure_eq_done.2 hspan⟩
    | list hopen himports hclose =>
      have hkind := hrest.kind.trans hopen
      rw [if_pos hkind]
      exact (accepts_importList.bind_iff hkind (hfirst.room room)).2
        ⟨_, _, d, hrest, .list hopen himports hclose, spanFrom_pure_eq_done.2 hspan⟩

/-! ## The traits of a type -/

theorem atWord_impl : c.atWord "impl" = true ↔ isImpl c.current := by
  rw [Cursor.atWord, isImpl, Bool.and_eq_true, decide_eq_true_iff, decide_eq_true_iff, Cursor.kind]

theorem accepts_traitNames : traitNames.Accepts levels TraitNames := by
  intro c _ room names d
  rw [traitNames, kind_bind]
  split
  · next hkind =>
    rw [accepts_separated accepts_identifier trivial room]
    constructor
    · rintro ⟨tokens, hpass, hnames⟩
      exact ⟨tokens, hpass, .cons hnames⟩
    · rintro ⟨tokens, hpass, hform⟩
      cases hform with
      | nil hnext =>
        obtain rfl := hpass.eq_of_nil
        exact absurd hkind hnext
      | cons hnames => exact ⟨tokens, hpass, hnames⟩
  · next hkind =>
    rw [pure_eq_done]
    constructor
    · rintro ⟨hnames, hcursor⟩
      subst hnames hcursor
      exact ⟨[], .refl c, .nil hkind⟩
    · rintro ⟨tokens, hpass, hform⟩
      cases hform with
      | nil => exact ⟨rfl, hpass.eq_of_nil.symm⟩
      | cons hnames =>
        obtain ⟨first, others, rfl, hfirst⟩ := separated_opens name_opens hnames
        exact absurd (hpass.kind.trans hfirst) hkind

theorem accepts_traits? : traits?.Accepts levels Traits := by
  intro c _ room names? d
  rw [traits?, cursor_bind]
  split
  · next hword =>
    rw [atWord_impl] at hword
    have hnext := Cursor.Passes.next c (by simp [Cursor.kind, hword.1])
    rw [advance_bind, map_eq_done]
    constructor
    · rintro ⟨names, hnames, hsome⟩
      subst hsome
      obtain ⟨tokens, hpass, hform⟩ := (accepts_traitNames trivial (hnext.room room) _ _).1 hnames
      exact ⟨_, hnext.cons hpass, .some hword hform⟩
    · rintro ⟨tokens, hpass, hform⟩
      cases hform with
      | none hnone =>
        obtain rfl := hpass.eq_of_nil
        exact absurd hword hnone
      | some _ hnames =>
        obtain ⟨c₁, hfirst, hrest⟩ := hpass.uncons
        obtain rfl := hfirst.next_eq
        exact ⟨_, (accepts_traitNames trivial (hnext.room room) _ _).2 ⟨_, hrest, hnames⟩, rfl⟩
  · next hword =>
    rw [atWord_impl] at hword
    rw [pure_eq_done]
    constructor
    · rintro ⟨hnone, hcursor⟩
      subst hnone hcursor
      exact ⟨[], .refl c, .none hword⟩
    · rintro ⟨tokens, hpass, hform⟩
      cases hform with
      | none => exact ⟨rfl, hpass.eq_of_nil.symm⟩
      | some himpl => exact absurd (hpass.current ▸ himpl) hword

section

variable {g : Grammar.Inner} {forms : Spelling.Inner}

/-! ## Definitions -/

theorem accepts_method (h : g.Spells forms levels) : (method g).Accepts levels (Named forms) := by
  intro c _ room f d
  rw [method, kind_bind]
  split
  · exact accepts_function h trivial room f d
  · next hkind =>
    constructor
    · exact fun h => absurd h not_unexpected_eq_done
    · rintro ⟨tokens, hpass, hform⟩
      obtain ⟨first, others, rfl, hfirst⟩ := named_opens hform
      exact absurd (hpass.kind.trans hfirst) hkind

theorem trait_eq_done_iff (h : g.Spells forms levels) (room : c.depth + levels ≤ maxNesting)
    {t : Trait} :
    trait g c = .done t d ↔
      ∃ first name brace tokens close methods,
        c.Passes (first :: name :: brace :: (tokens ++ [close])) d ∧ first.kind = .kwTrait
        ∧ name.kind = .identifier ∧ brace.kind = .openCurly
        ∧ Many insideBraces (Named forms) tokens close methods ∧ close.kind = .closeCurly
        ∧ t = ⟨⟨name.value, name.span⟩, methods,
            .cover (first :: name :: brace :: (tokens ++ [close]))⟩ := by
  have hopens : (Named forms).Opens (insideBraces · = true) :=
    named_opens.imp fun kind hkind => by simp [hkind, insideBraces]
  have hmany : (many insideBraces (method g)).Accepts levels _ :=
    accepts_many rfl hopens (accepts_method h).at
  rw [trait, expect_bind_iff .kwTrait rfl]
  constructor
  · rintro ⟨first, c₁, hfirst, hkind, hrest⟩
    obtain ⟨name, c₂, hname, hident, hrest⟩ := identifier_bind_iff.1 hrest
    obtain ⟨brace, c₃, hbrace, hopen, hrest⟩ := (expect_bind_iff .openCurly rfl).1 hrest
    have hhead := hfirst.cons (hname.cons hbrace)
    obtain ⟨tokens, methods, c₄, htokens, hmethods, hrest⟩ := (hmany.bind_iff (hhead.room room)).1 hrest
    obtain ⟨close, c₅, hlast, hclose, hdone⟩ := (expect_bind_iff .closeCurly rfl).1 hrest
    obtain ⟨rfl, rfl⟩ := spanFrom_pure_eq_done.1 hdone
    have hall := hfirst.cons (hname.cons (hbrace.cons (htokens.trans hlast)))
    rw [hlast.current] at hmethods
    exact ⟨first, name, brace, tokens, close, methods, hall, hkind, hident, hopen, hmethods, hclose,
      by rw [hall.spanFrom]⟩
  · rintro ⟨first, name, brace, tokens, close, methods, hpass, hkind, hident, hopen, hmethods, hclose, ht⟩
    obtain ⟨c₁, hfirst, hrest⟩ := hpass.uncons
    obtain ⟨c₂, hname, hrest⟩ := hrest.uncons
    obtain ⟨c₃, hbrace, hrest⟩ := hrest.uncons
    obtain ⟨c₄, htokens, hlast⟩ := hrest.split
    refine ⟨first, c₁, hfirst, hkind, identifier_bind_iff.2 ⟨name, c₂, hname, hident, ?_⟩⟩
    refine (expect_bind_iff .openCurly rfl).2 ⟨brace, c₃, hbrace, hopen, ?_⟩
    refine (hmany.bind_iff (hbrace.room (hname.room (hfirst.room room)))).2
      ⟨tokens, methods, c₄, htokens, by rwa [hlast.current], ?_⟩
    refine (expect_bind_iff .closeCurly rfl).2 ⟨close, d, hlast, hclose, ?_⟩
    exact spanFrom_pure_eq_done.2 ⟨by rw [hpass.spanFrom, ht], rfl⟩

theorem type_eq_done_iff (h : g.Spells forms levels) (room : c.depth + levels ≤ maxNesting)
    {t : TypeDef} :
    type g c = .done t d ↔
      ∃ first name tokens others rest parameters? traits? body?,
        c.Passes (first :: name :: (tokens ++ (others ++ rest))) d ∧ first.kind = .kwType
        ∧ name.kind = .identifier
        ∧ Clause .openParen Parameters tokens ((others ++ rest).headD d.current) parameters?
        ∧ Traits others (rest.headD d.current) traits?
        ∧ Clause .openCurly forms.block rest d.current body?
        ∧ t = ⟨⟨name.value, name.span⟩, parameters?, traits?, body?,
            .cover (first :: name :: (tokens ++ (others ++ rest)))⟩ := by
  have hparameters : (ifAt .openParen parameters).Accepts levels _ :=
    accepts_ifAt bracketed_opens accepts_parameters.at
  have hblock : (ifAt .openCurly g.block).Accepts levels _ := accepts_ifAt h.blockOpens h.block.at
  rw [type, expect_bind_iff .kwType rfl]
  constructor
  · rintro ⟨first, c₁, hfirst, hkind, hrest⟩
    obtain ⟨name, c₂, hname, hident, hrest⟩ := identifier_bind_iff.1 hrest
    have room₂ := hname.room (hfirst.room room)
    obtain ⟨tokens, parameters?, c₃, htokens, hclause, hrest⟩ := (hparameters.bind_iff room₂).1 hrest
    have room₃ := htokens.room room₂
    obtain ⟨others, names?, c₄, hothers, htraits, hrest⟩ := (accepts_traits?.bind_iff room₃).1 hrest
    obtain ⟨rest, body?, c₅, hlast, hbody, hdone⟩ := (hblock.bind_iff (hothers.room room₃)).1 hrest
    obtain ⟨rfl, rfl⟩ := spanFrom_pure_eq_done.1 hdone
    -- The form tells the token behind each part, which may be several parts further on if those are missing.
    have hall := hfirst.cons (hname.cons (htokens.trans (hothers.trans hlast)))
    rw [hlast.current] at htraits
    rw [(hothers.trans hlast).current] at hclause
    exact ⟨first, name, tokens, others, rest, parameters?, names?, body?, hall, hkind, hident, hclause,
      htraits, hbody, by rw [hall.spanFrom]⟩
  · rintro ⟨first, name, tokens, others, rest, parameters?, names?, body?, hpass, hkind, hident, hclause,
      htraits, hbody, ht⟩
    obtain ⟨c₁, hfirst, hrest⟩ := hpass.uncons
    obtain ⟨c₂, hname, hrest⟩ := hrest.uncons
    obtain ⟨c₃, htokens, hrest⟩ := hrest.split
    obtain ⟨c₄, hothers, hlast⟩ := hrest.split
    have room₂ := hname.room (hfirst.room room)
    have room₃ := htokens.room room₂
    refine ⟨first, c₁, hfirst, hkind, identifier_bind_iff.2 ⟨name, c₂, hname, hident, ?_⟩⟩
    refine (hparameters.bind_iff room₂).2 ⟨tokens, parameters?, c₃, htokens, by rwa [hrest.current], ?_⟩
    refine (accepts_traits?.bind_iff room₃).2 ⟨others, names?, c₄, hothers, by rwa [hlast.current], ?_⟩
    refine (hblock.bind_iff (hothers.room room₃)).2 ⟨rest, body?, d, hlast, hbody, ?_⟩
    exact spanFrom_pure_eq_done.2 ⟨by rw [hpass.spanFrom, ht], rfl⟩

theorem unit_eq_done_iff (h : g.Spells forms levels) (room : c.depth + levels ≤ maxNesting)
    {u : UnitDef} :
    unit g c = .done u d ↔
      ∃ first name tokens body?, c.Passes (first :: name :: tokens) d ∧ first.kind = .kwUnit
        ∧ name.kind = .identifier ∧ Clause .openCurly forms.block tokens d.current body?
        ∧ u = ⟨⟨name.value, name.span⟩, body?, .cover (first :: name :: tokens)⟩ := by
  have hblock : (ifAt .openCurly g.block).Accepts levels _ := accepts_ifAt h.blockOpens h.block.at
  rw [unit, expect_bind_iff .kwUnit rfl]
  constructor
  · rintro ⟨first, c₁, hfirst, hkind, hrest⟩
    obtain ⟨name, c₂, hname, hident, hrest⟩ := identifier_bind_iff.1 hrest
    obtain ⟨tokens, body?, c₃, htokens, hbody, hdone⟩ :=
      (hblock.bind_iff (hname.room (hfirst.room room))).1 hrest
    obtain ⟨rfl, rfl⟩ := spanFrom_pure_eq_done.1 hdone
    have hall := hfirst.cons (hname.cons htokens)
    exact ⟨first, name, tokens, body?, hall, hkind, hident, hbody, by rw [hall.spanFrom]⟩
  · rintro ⟨first, name, tokens, body?, hpass, hkind, hident, hbody, hu⟩
    obtain ⟨c₁, hfirst, hrest⟩ := hpass.uncons
    obtain ⟨c₂, hname, htokens⟩ := hrest.uncons
    refine ⟨first, c₁, hfirst, hkind, identifier_bind_iff.2 ⟨name, c₂, hname, hident, ?_⟩⟩
    refine (hblock.bind_iff (hname.room (hfirst.room room))).2 ⟨tokens, body?, d, htokens, hbody, ?_⟩
    exact spanFrom_pure_eq_done.2 ⟨by rw [hpass.spanFrom, hu], rfl⟩

/-! ## Statements at top level -/

theorem topLevelStatement_apply (g : Grammar.Inner) (c : Cursor) :
    topLevelStatement g c =
      if c.kind = .kwBreak ∨ c.kind = .kwContinue then unexpected "definition" c
      else if c.kind = .identifier then topLevelChain g c
      else statement g c := by
  rw [topLevelStatement, kind_bind]
  cases c.kind <;> rfl

theorem topLevelChain_eq_done_iff {s : Stmt} :
    topLevelChain g c = .done s d ↔ chainStatement g c = .done s d ∧ isExpression s = false := by
  rw [topLevelChain, cursor_bind, bind_eq_done]
  constructor
  · rintro ⟨t, e, hstatement, hrest⟩
    split at hrest
    · exact absurd hrest not_fail_eq_done
    · next hexpression =>
      obtain ⟨rfl, rfl⟩ := pure_eq_done.1 hrest
      exact ⟨hstatement, by simpa using hexpression⟩
  · rintro ⟨hstatement, hexpression⟩
    refine ⟨s, d, hstatement, ?_⟩
    rw [if_neg (by simp [hexpression])]
    rfl

/-- Of the statements that do not open an item, the ones that may stand alone are read at top level. -/
theorem topLevelStatement_eq_done_iff (h : g.Spells forms levels)
    (room : c.depth + levels ≤ maxNesting) (hform : c.kind.itemForm? = none) {s : Stmt} :
    topLevelStatement g c = .done s d ↔ statement g c = .done s d ∧ standsAlone s := by
  rw [topLevelStatement_apply]
  split
  · next hkind =>
    refine ⟨fun h => absurd h not_unexpected_eq_done, ?_⟩
    rintro ⟨hdone, halone⟩
    rcases hkind with hkind | hkind
    · rw [statement_apply, if_neg (by simp [hkind]), hkind] at hdone
      obtain ⟨_, _, _, rfl⟩ := breakLoop_eq_done_iff.1 hdone
      exact halone.elim
    · rw [statement_apply, if_neg (by simp [hkind]), hkind] at hdone
      obtain ⟨_, _, _, rfl⟩ := continueLoop_eq_done_iff.1 hdone
      exact halone.elim
  · next hloop =>
    split
    · -- Of the statements that start with a chain, an expression is refused.
      next hkind =>
      rw [topLevelChain_eq_done_iff, statement_apply, if_pos hkind]
      refine and_congr_right fun hdone => ?_
      rcases (chainStatement_eq_done_iff h room).1 hdone with ⟨_, _, _, _, _, _, _, _, _, rfl⟩
        | ⟨_, _, _, _, _, _, _, _, _, _, rfl⟩ | ⟨_, _, _, _, _, _, rfl⟩
      all_goals simp [isExpression, standsAlone]
    · next hkind =>
      refine ⟨fun hdone => ⟨hdone, ?_⟩, fun hdone => hdone.1⟩
      obtain ⟨tokens, hpass, hstatement⟩ := (accepts_statement h trivial room s d).1 hdone
      cases hstatement with
      | expression hchain =>
        obtain ⟨first, others, rfl, hfirst⟩ := chain_opens hchain
        exact absurd (hpass.kind.trans hfirst) hkind
      | breakLoop hfirst => exact absurd (.inl (hpass.kind.trans hfirst)) hloop
      | continueLoop hfirst => exact absurd (.inr (hpass.kind.trans hfirst)) hloop
      | function hnamed =>
        obtain ⟨first, others, rfl, hfirst⟩ := named_opens hnamed
        rw [hpass.kind, hfirst] at hform
        cases hform
      | _ => exact trivial

/-- A statement that may stand alone does not start like a definition or an import. -/
theorem itemForm?_of_standsAlone {tokens : List Token} {next : Token} {s : Stmt}
    (hstatement : Statement forms tokens next s) (halone : standsAlone s) :
    ∃ first others, tokens = first :: others ∧ first.kind.itemForm? = none := by
  cases hstatement with
  | define htarget | assign htarget =>
    obtain ⟨first, others, rfl, hfirst⟩ := chain_opens htarget
    exact ⟨first, _, rfl, by rw [hfirst]; rfl⟩
  | expression | breakLoop | continueLoop | function => exact halone.elim
  | returnValue hfirst | whileLoop hfirst | conditional hfirst | forLoop hfirst | native hfirst =>
    exact ⟨_, _, rfl, by rw [hfirst]; rfl⟩

/-! ## Items of every kind -/

theorem item_apply (g : Grammar.Inner) (c : Cursor) :
    item g c = match c.kind.itemForm? with
      | some form => itemOf g form c
      | none => (Item.statement <$> topLevelStatement g) c := by
  rw [item, kind_bind]
  cases c.kind.itemForm? <;> rfl

/-- One constructor of the form for each kind of item that its first token opens. -/
theorem item_of_itemOf (h : g.Spells forms levels) (room : c.depth + levels ≤ maxNesting)
    {form : ItemForm} {i : Item} (hdone : itemOf g form c = .done i d) :
    ∃ tokens, c.Passes tokens d ∧ Spelling.Item forms tokens d.current i := by
  cases form with
  | function =>
    obtain ⟨f, hread, rfl⟩ := map_eq_done.1 hdone
    obtain ⟨tokens, hpass, hnamed⟩ := (accepts_function h trivial room _ _).1 hread
    exact ⟨tokens, hpass, .definition (.function hnamed)⟩
  | trait =>
    obtain ⟨t, hread, rfl⟩ := map_eq_done.1 hdone
    obtain ⟨first, name, brace, tokens, close, methods, hpass, hkind, hident, hopen, hmethods, hclose,
      rfl⟩ := (trait_eq_done_iff h room).1 hread
    exact ⟨_, hpass, .definition (.trait hkind hident hopen hmethods hclose)⟩
  | type =>
    obtain ⟨t, hread, rfl⟩ := map_eq_done.1 hdone
    obtain ⟨first, name, tokens, others, rest, parameters?, names?, body?, hpass, hkind, hident,
      hparameters, htraits, hbody, rfl⟩ := (type_eq_done_iff h room).1 hread
    exact ⟨_, hpass, .definition (.type hkind hident hparameters htraits hbody)⟩
  | unit =>
    obtain ⟨u, hread, rfl⟩ := map_eq_done.1 hdone
    obtain ⟨first, name, tokens, body?, hpass, hkind, hident, hbody, rfl⟩ :=
      (unit_eq_done_iff h room).1 hread
    exact ⟨_, hpass, .definition (.unit hkind hident hbody)⟩
  | imports =>
    obtain ⟨s, hread, rfl⟩ := map_eq_done.1 hdone
    obtain ⟨first, tokens, list, hpass, hkind, hlist, rfl⟩ := (imports_eq_done_iff room).1 hread
    exact ⟨_, hpass, .imports hkind hlist⟩

/-- Each constructor of the form is read by the reading that its first token opens. -/
theorem item_eq_done (h : g.Spells forms levels) (room : c.depth + levels ≤ maxNesting) {i : Item}
    {tokens : List Token} (hpass : c.Passes tokens d)
    (hform : Spelling.Item forms tokens d.current i) : item g c = .done i d := by
  rw [item_apply]
  cases hform with
  | definition hdefined =>
    generalize hnext : d.current = next at hdefined
    cases hdefined with
    | function hnamed =>
      subst hnext
      obtain ⟨first, others, rfl, hfirst⟩ := named_opens hnamed
      rw [hpass.kind.trans hfirst]
      exact map_eq_done.2 ⟨_, (accepts_function h trivial room _ _).2 ⟨_, hpass, hnamed⟩, rfl⟩
    | trait hfirst hname hbrace hmethods hclose =>
      rw [hpass.kind.trans hfirst]
      exact map_eq_done.2 ⟨_, (trait_eq_done_iff h room).2
        ⟨_, _, _, _, _, _, hpass, hfirst, hname, hbrace, hmethods, hclose, rfl⟩, rfl⟩
    | type hfirst hname hparameters htraits hbody =>
      subst hnext
      rw [hpass.kind.trans hfirst]
      exact map_eq_done.2 ⟨_, (type_eq_done_iff h room).2
        ⟨_, _, _, _, _, _, _, _, hpass, hfirst, hname, hparameters, htraits, hbody, rfl⟩, rfl⟩
    | unit hfirst hname hbody =>
      subst hnext
      rw [hpass.kind.trans hfirst]
      exact map_eq_done.2 ⟨_, (unit_eq_done_iff h room).2
        ⟨_, _, _, _, hpass, hfirst, hname, hbody, rfl⟩, rfl⟩
  | imports hfirst himports =>
    rw [hpass.kind.trans hfirst]
    exact map_eq_done.2 ⟨_, (imports_eq_done_iff room).2 ⟨_, _, _, hpass, hfirst, himports, rfl⟩, rfl⟩
  | statement hstatement halone =>
    obtain ⟨first, others, rfl, hfirst⟩ := itemForm?_of_standsAlone hstatement halone
    have hkind : c.kind.itemForm? = none := hpass.kind ▸ hfirst
    rw [hkind]
    refine map_eq_done.2 ⟨_, (topLevelStatement_eq_done_iff h room hkind).2 ⟨?_, halone⟩, rfl⟩
    exact (accepts_statement h trivial room _ _).2 ⟨_, hpass, hstatement⟩

theorem accepts_item (h : g.Spells forms levels) :
    (item g).Accepts levels (Spelling.Item forms) := by
  intro c _ room i d
  constructor
  · intro hdone
    rw [item_apply] at hdone
    split at hdone
    · exact item_of_itemOf h room hdone
    · next hform =>
      obtain ⟨s, hread, rfl⟩ := map_eq_done.1 hdone
      obtain ⟨hstmt, halone⟩ := (topLevelStatement_eq_done_iff h room hform).1 hread
      obtain ⟨tokens, hpass, hstatement⟩ := (accepts_statement h trivial room s d).1 hstmt
      exact ⟨tokens, hpass, .statement hstatement halone⟩
  · rintro ⟨tokens, hpass, hform⟩
    exact item_eq_done h room hpass hform

/-- An item starts with some token other than the end of input. -/
theorem item_opens : (Spelling.Item forms).Opens (insideProgram · = true) := by
  intro tokens next i hform
  cases hform with
  | definition hdefined =>
    cases hdefined with
    | function hnamed =>
      obtain ⟨first, others, rfl, hfirst⟩ := named_opens hnamed
      exact ⟨first, others, rfl, by simp [insideProgram, hfirst]⟩
    | trait hfirst | type hfirst | unit hfirst =>
      exact ⟨_, _, rfl, by simp [insideProgram, hfirst]⟩
  | imports hfirst => exact ⟨_, _, rfl, by simp [insideProgram, hfirst]⟩
  | statement hstatement =>
    obtain ⟨first, others, rfl, hfirst⟩ := statement_opens hstatement
    refine ⟨first, others, rfl, ?_⟩
    rcases hfirst with hfirst | hfirst
    · simp [insideProgram, hfirst]
    · cases hkind : first.kind <;> simp_all [insideProgram, TokenKind.statementForm?]

end

end WattFront.Grammar
