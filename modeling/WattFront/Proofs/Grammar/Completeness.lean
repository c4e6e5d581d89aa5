import WattFront.Proofs.Grammar.TreeRecovery

/-! # Every well-formed program is read back from its spelling

An item ends because no construct goes on with the first token of the next one, unless it is a type that
takes the name in front of the next item for a trait of its own or for the word in front of its traits
(`Item.takes`). In a well-formed program no item does that, so the items of the program are recovered one
after the other, and the program is the answer to its canonical spelling.
-/

namespace WattFront

open Grammar Spelling Word

variable {n : Nat} {ws : List Word} {tokens : List Token} {next : Token}

/-! ## Imports -/

theorem recovers_import (i : Import) :
    SingleImport.Recovers Import.bare i.words i fun w => w.kind ≠ .kwWith := by
  intro tokens next htokens hnext
  obtain ⟨path, alias?, s⟩ := i
  obtain ⟨first, others, rfl, hfirst, hvalue, hothers⟩ := exists_cons_of_words htokens
  cases alias? with
  | none =>
    obtain rfl := eq_nil_of_words hothers
    exact ⟨_, .intro hfirst (.none hnext), by simp [Import.bare, hvalue]⟩
  | some name =>
    obtain ⟨keyword, rest, rfl, hkeyword, _, hrest⟩ := exists_cons_of_words hothers
    obtain ⟨token, end', rfl, htoken, hname, hend⟩ := exists_cons_of_words hrest
    obtain rfl := eq_nil_of_words hend
    exact ⟨_, .intro hfirst (.some (.intro hkeyword htoken)), by
      simp [Import.bare, Ident.bare, hvalue, hname, Ident.word]⟩

theorem recovers_imports {list : List Import} (hne : list ≠ []) :
    Imports.Recovers (List.map Import.bare) (wordsOfImports list) list fun w => w.kind ≠ .kwWith := by
  intro tokens next htokens hnext
  by_cases hone : ∃ i, list = [i]
  · obtain ⟨i, rfl⟩ := hone
    obtain ⟨b, hb, hbare⟩ := recovers_import i tokens next htokens hnext
    exact ⟨[b], .one hb, by rw [List.map_singleton, List.map_singleton, hbare]⟩
  · have hwords : wordsOfImports list = bracketed .openParen .closeParen (list.map Import.words) := by
      unfold wordsOfImports
      split
      · next i => exact absurd ⟨i, rfl⟩ hone
      · rfl
    rw [hwords] at htokens
    obtain ⟨first, rest, rfl, hfirst, _, hrest⟩ := exists_cons_of_words htokens
    obtain ⟨front, back, rfl, hfront, hback⟩ := exists_append_of_words hrest
    obtain ⟨close, others, rfl, hclose, _, hothers⟩ := exists_cons_of_words hback
    obtain rfl := eq_nil_of_words hothers
    have hkind : close.word.kind = .closeParen := hclose
    have hbehind : close.word.kind ≠ .kwWith ∧ close.word.kind ≠ .comma := by
      rw [hkind]
      decide
    obtain ⟨bs, hbs, hbares⟩ :=
      recovers_separated (fun i _ => recovers_import i) (by decide) hne front close hfront hbehind
    exact ⟨bs, .list hfirst hbs hclose, hbares⟩

/-! ## Traits of a type -/

/-- Whether the traits of a type would take a word that stands behind them. -/
def takesName : Option (List Ident) → Word → Bool
  | none, w => w.kind = .identifier && w.value = "impl"
  | some [], w => w.kind = .identifier
  | some (_ :: _), _ => false

theorem takesName_of_kind {names? : Option (List Ident)} {w : Word} (h : w.kind ≠ .identifier) :
    takesName names? w = false := by
  rcases names? with _ | _ | _ <;> simp [takesName, h]

theorem recovers_traits (names? : Option (List Ident)) :
    Traits.Recovers (Option.map (List.map Ident.bare)) (wordsOfTraits names?) names?
      fun w => takesName names? w = false ∧ w.kind ≠ .comma := by
  intro tokens next htokens hnext
  cases names? with
  | none =>
    obtain rfl := eq_nil_of_words htokens
    refine ⟨none, .none ?_, rfl⟩
    intro himpl
    simp [takesName, Token.word, himpl.1, himpl.2] at hnext
  | some names =>
    obtain ⟨word, others, rfl, hkind, hvalue, hothers⟩ := exists_cons_of_words htokens
    cases names with
    | nil =>
      obtain rfl := eq_nil_of_words hothers
      have hname : next.kind ≠ .identifier := of_decide_eq_false hnext.1
      exact ⟨some [], .some ⟨hkind, hvalue⟩ (.nil hname), rfl⟩
    | cons i names =>
      obtain ⟨bs, hbs, hbares⟩ := recovers_separated (fun i _ => recovers_name i) trivial
        (List.cons_ne_nil i names) others next hothers ⟨trivial, hnext.2⟩
      exact ⟨some bs, .some ⟨hkind, hvalue⟩ (.cons hbs), by rw [Option.map_some, Option.map_some, hbares]⟩

/-! ## Definitions -/

def Item.takes : Item → Word → Bool
  | .definition (.type ⟨_, _, traits?, none, _⟩), w => takesName traits? w
  | _, _ => false

def Item.EndsBefore (i : Item) (w : Word) : Prop :=
  endsStatement w.kind = true ∧ i.takes w = false

theorem recovers_trait {t : Trait} (hshaped : t.methods.all Function.shaped = true)
    (hwritable : AllWritable (t.methods.flatMap Function.traces))
    (hn : (t.methods.map Function.levels).foldr max 0 ≤ n) :
    (Defined (upTo n)).Recovers Definition.bare (Definition.words (.trait t)) (.trait t)
      fun _ => True := by
  intro tokens next htokens _
  rw [List.all_eq_true] at hshaped
  rw [AllWritable.flatMap_iff] at hwritable
  rw [foldr_max_le, List.forall_mem_map] at hn
  obtain ⟨first, behind, rfl, hfirst, _, hbehind⟩ := exists_cons_of_words htokens
  obtain ⟨name, back, rfl, hname, hvalue, hback⟩ := exists_cons_of_words hbehind
  obtain ⟨brace, rest, rfl, hbrace, _, hrest⟩ := exists_cons_of_words hback
  obtain ⟨front, last, rfl, hfront, hlast⟩ := exists_append_of_words hrest
  obtain ⟨close, others, rfl, hclose, _, hothers⟩ := exists_cons_of_words hlast
  obtain rfl := eq_nil_of_words hothers
  have hmethods := fun f member =>
    recovered_hereditary.ofFunction f (hshaped f member) (hwritable f member) n (hn f member)
  have hstart : ∀ f ∈ t.methods, Word.Start f.words fun w => w.kind ≠ .openParen ∧ w.kind ≠ .openCurly := by
    intro f _
    cases f
    exact ⟨TokenKind.kwFn.word, _, by rw [Function.words], by decide⟩
  have hkind : close.word.kind = .closeCurly := hclose
  have hstop : (close.word.kind ≠ .openParen ∧ close.word.kind ≠ .openCurly)
      ∧ insideBraces close.word.kind = false := by
    rw [hkind]
    decide
  obtain ⟨fs, hfs, hbares⟩ := recovers_many hmethods hstart front close hfront hstop
  exact ⟨_, .trait hfirst hname hbrace hfs hclose, by
    simp [Definition.bare, Ident.bare, hvalue, Ident.word, hbares]⟩

theorem recovers_type {t : TypeDef} (hshaped : Block.shaped? t.body? = true)
    (hwritable : AllWritable (Block.traces? t.body?)) (hn : Block.levels? t.body? ≤ n) :
    (Defined (upTo n)).Recovers Definition.bare (Definition.words (.type t)) (.type t)
      (Item.definition (.type t)).EndsBefore := by
  intro tokens next htokens hnext
  obtain ⟨i, parameters?, traits?, body?, s⟩ := t
  have hfree := unclaimed_of_endsStatement hnext.1
  obtain ⟨first, behind, rfl, hfirst, _, hbehind⟩ := exists_cons_of_words htokens
  obtain ⟨name, back, rfl, hname, hvalue, hback⟩ := exists_cons_of_words hbehind
  obtain ⟨front, others, rfl, hfront, hothers⟩ := exists_append_of_words hback
  obtain ⟨middle, rest, rfl, hmiddle, hrest⟩ := exists_append_of_words hothers
  have hparen : ((middle ++ rest).headD next).word.kind ≠ .openParen := by
    refine follow_headD (·.kind ≠ .openParen) hothers ?_ hfree.parameters
    cases traits? <;> cases body? <;> simp [wordsOfTraits, Block.words_eq, Block.words?, TokenKind.word]
  have htraits : takesName traits? (rest.headD next).word = false ∧ (rest.headD next).word.kind ≠ .comma := by
    cases body? with
    | none =>
      obtain rfl := eq_nil_of_words hrest
      exact ⟨hnext.2, hfree.comma⟩
    | some body =>
      rw [Block.words?, Block.words_eq] at hrest
      have hkind : (rest.headD next).word.kind = .openCurly := kind_headD_of_words hrest
      rw [takesName_of_kind (by rw [hkind]; decide), hkind]
      decide
  obtain ⟨ps?, hps, hbares⟩ := recovers_parameters? parameters? front _ hfront hparen
  obtain ⟨ts?, hts, htbares⟩ := recovers_traits traits? middle _ hmiddle htraits
  obtain ⟨b?, hb, hbbares⟩ := recovers_body? (fun b _ => recovered_hereditary.ofBlock b) hshaped
    hwritable hn rest next hrest hfree.body
  exact ⟨_, .type hfirst hname hps hts hb, by
    simp [Definition.bare, Ident.bare, hvalue, Ident.word, hbares, htbares, hbbares]⟩

theorem recovers_unit {u : UnitDef} (hshaped : Block.shaped? u.body? = true)
    (hwritable : AllWritable (Block.traces? u.body?)) (hn : Block.levels? u.body? ≤ n) :
    (Defined (upTo n)).Recovers Definition.bare (Definition.words (.unit u)) (.unit u)
      fun w => w.kind ≠ .openCurly := by
  intro tokens next htokens hnext
  obtain ⟨first, behind, rfl, hfirst, _, hbehind⟩ := exists_cons_of_words htokens
  obtain ⟨name, rest, rfl, hname, hvalue, hrest⟩ := exists_cons_of_words hbehind
  obtain ⟨b?, hb, hbares⟩ := recovers_body? (fun b _ => recovered_hereditary.ofBlock b) hshaped
    hwritable hn rest next hrest hnext
  exact ⟨_, .unit hfirst hname hb, by simp [Definition.bare, Ident.bare, hvalue, Ident.word, hbares]⟩

/-! ## Items -/

theorem recovers_definition {d : Definition} (hshaped : d.shaped = true) (hwritable : AllWritable d.traces)
    (hn : d.levels ≤ n) :
    (Defined (upTo n)).Recovers Definition.bare d.words d (Item.definition d).EndsBefore := by
  cases d with
  | function f =>
    intro tokens next htokens hnext
    have hfree := unclaimed_of_endsStatement hnext.1
    obtain ⟨b, hb, hbare⟩ := recovered_hereditary.ofFunction f hshaped hwritable n hn tokens next htokens
      ⟨hfree.parameters, hfree.body⟩
    exact ⟨_, .function hb, by rw [Definition.bare, Definition.bare, hbare]⟩
  | trait t =>
    rw [Definition.traces, AllWritable.cons_iff] at hwritable
    exact (recovers_trait hshaped hwritable.2 hn).imp fun _ _ => trivial
  | type t =>
    simp only [Definition.traces, AllWritable.cons_iff, AllWritable.append_iff] at hwritable
    exact recovers_type hshaped hwritable.2.2.2 hn
  | unit u =>
    rw [Definition.traces, AllWritable.cons_iff] at hwritable
    exact (recovers_unit hshaped hwritable.2 hn).imp fun _ hw => (unclaimed_of_endsStatement hw.1).body

/-- Whether a statement may stand at top level has nothing to do with its spans. -/
theorem standsAlone_bare (t : Stmt) : standsAlone t.bare ↔ standsAlone t := by
  cases t <;> exact Iff.rfl

theorem recovers_item {i : Item} (hshaped : i.shaped = true) (hwritable : AllWritable i.traces)
    (hn : i.levels ≤ n) : (Spelling.Item (upTo n)).Recovers Item.bare i.words i i.EndsBefore := by
  intro tokens next htokens hnext
  cases i with
  | definition d =>
    obtain ⟨b, hb, hbare⟩ := recovers_definition hshaped hwritable hn tokens next htokens hnext
    exact ⟨_, .definition hb, by rw [Item.bare, Item.bare, hbare]⟩
  | statement t =>
    cases t with
    | imports list s =>
      have hne : list ≠ [] := by
        rintro rfl
        exact absurd hshaped Bool.false_ne_true
      obtain ⟨first, others, rfl, hfirst, _, hothers⟩ := exists_cons_of_words htokens
      obtain ⟨bs, hbs, hbares⟩ := recovers_imports hne others next hothers
        (unclaimed_of_endsStatement hnext.1).importName
      exact ⟨_, .imports hfirst hbs, by simp [Item.bare, Stmt.bare, hbares]⟩
    | breakLoop s | continueLoop s | expression value s | function definition s =>
      exact absurd hshaped Bool.false_ne_true
    | returnValue | whileLoop | conditional | forLoop | native | assign | define =>
      obtain ⟨b, hb, hbare⟩ :=
        recovered_hereditary.ofStmt _ hshaped hwritable n hn tokens next htokens hnext.1
      have halone : standsAlone b := by
        rw [← standsAlone_bare, hbare]
        trivial
      exact ⟨_, .statement hb halone, by rw [Item.bare, Item.bare, hbare]⟩

/-! ## Items behind one another -/

theorem Item.takes_of_kind {i : Item} {w : Word} (h : w.kind ≠ .identifier) : i.takes w = false := by
  unfold Item.takes
  split
  · exact takesName_of_kind h
  · rfl

/-- An item starts with a token that ends a statement. If it is an identifier, it is the name that the
item starts with. -/
theorem Item.exists_words {i : Item} (h : i.shaped = true) :
    ∃ w rest, i.words = w :: rest ∧ endsStatement w.kind = true
      ∧ (w.kind = .identifier → i.root? = some w.value) := by
  cases i with
  | definition d =>
    cases d with
    | function f =>
      cases f
      exact ⟨TokenKind.kwFn.word, _, by rw [Item.words, Definition.words, Function.words], rfl,
        fun h => absurd h (by decide)⟩
    | trait | type | unit => exact ⟨_, _, rfl, rfl, fun h => absurd h (by decide)⟩
  | statement t =>
    cases t with
    | assign target op value s | define target value s =>
      simp only [Item.shaped, Stmt.shaped, Bool.and_eq_true] at h
      obtain ⟨name, rest, hroot, hwords⟩ := Expr.words_of_isChain h.1.1
      exact ⟨⟨.identifier, name⟩, _, by rw [Item.words, Stmt.words, hwords, List.cons_append], rfl,
        fun _ => hroot⟩
    | breakLoop | continueLoop | expression | function => exact absurd h Bool.false_ne_true
    | returnValue | whileLoop | conditional | forLoop | native | imports =>
      exact ⟨_, _, rfl, rfl, fun h => absurd h (by decide)⟩

/-- An item that does not run into the next one ends in front of its first word. -/
theorem Item.start_of_apart {i next : Item} (hshaped : next.shaped = true)
    (h : i.runsInto next = false) : Word.Start next.words i.EndsBefore := by
  obtain ⟨w, rest, hwords, hends, hroot⟩ := next.exists_words hshaped
  refine ⟨w, rest, hwords, hends, ?_⟩
  -- Only a name can be taken, and then it is the name that the next item starts with.
  by_cases hname : w.kind = .identifier
  · have hroot' := hroot hname
    unfold Item.takes
    split
    · next traits? _ =>
      rcases traits? with _ | _ | _
      · simpa [Item.runsInto, takesName, hname, hroot'] using h
      · simp [Item.runsInto, hroot'] at h
      · rfl
    · rfl
  · exact Item.takes_of_kind hname

theorem recovers_items {items : List Item} (hshaped : ∀ i ∈ items, i.shaped = true)
    (hwritable : ∀ i ∈ items, AllWritable i.traces) (hn : ∀ i ∈ items, i.levels ≤ n)
    (hapart : items.IsChain fun i next => i.runsInto next = false) :
    (Many insideProgram (Spelling.Item (upTo n))).Recovers (List.map Item.bare)
      (items.flatMap Item.words) items fun w => w.kind = .endOfInput := by
  have hitem := fun i member => recovers_item (hshaped i member) (hwritable i member) (hn i member)
  have hchain : items.IsChain fun i next => Word.Start next.words i.EndsBefore :=
    hapart.imp_of_mem_imp fun _ next _ member => Item.start_of_apart (hshaped next member)
  refine (recovers_many_of_chain hitem hchain).imp fun w hw => ⟨fun i _ => ⟨?_, ?_⟩, ?_⟩
  · rw [hw]
    rfl
  · exact Item.takes_of_kind (by rw [hw]; decide)
  · rw [hw]
    rfl

/-! ## Programs -/

theorem Word.Written.inside {w : Word} (h : w.Written) : w.kind ≠ .endOfInput := by
  cases h with
  | keyword h | mark h =>
    rintro rfl
    exact absurd h (by decide)
  | name | number | string =>
    intro h
    cases h

/-- Items in front of an end of input spell a program. -/
theorem Spelling.program_of_items {last : Token} {items : List WattFront.Item} {file : String}
    (hitems : Many insideProgram (Spelling.Item (upTo maxNesting)) tokens last items)
    (hinside : ∀ token ∈ tokens, token.kind ≠ .endOfInput) (hlast : last.kind = .endOfInput) :
    Spelling.Program (tokens ++ [last]) file ⟨items, ⟨.origin file, last.span.start⟩⟩ := by
  have hall : ∀ token ∈ tokens, decide (token.kind ≠ .endOfInput) = true :=
    fun token member => decide_eq_true (hinside token member)
  have htake : (tokens ++ [last]).takeWhile (·.kind ≠ .endOfInput) = tokens := by
    rw [List.takeWhile_append_of_pos hall, List.takeWhile_cons_of_neg (by simp [hlast]), List.append_nil]
  have hending : ending (tokens ++ [last]) file = last := by
    rw [ending, List.dropWhile_append_of_pos hall, List.dropWhile_cons_of_neg (by simp [hlast]),
      List.headD_cons]
  refine ⟨?_, ?_⟩
  · rw [htake, hending]
    exact hitems
  · rw [hending]

/-- A well-formed program is read back from its canonical spelling, as long as the spelling does not open
too many levels of nesting. -/
theorem Program.ofSource_spelling {p : Program} (h : p.WellFormed) (hlevels : p.levels ≤ maxNesting)
    (file : String) : ∃ q, Program.ofSource p.spelling file = .ok q ∧ q.bare = p.bare := by
  have hshaped := List.all_eq_true.1 h.shaped
  have hwritable := AllWritable.flatMap_iff.1 h.writable
  rw [Program.levels, foldr_max_le, List.forall_mem_map] at hlevels
  obtain ⟨tokens, last, htokens, hwords, hlast⟩ := tokenize_spaced file h.written
  obtain ⟨items, hitems, hbare⟩ :=
    recovers_items hshaped hwritable hlevels h.apart tokens last hwords hlast
  have hinside : ∀ token ∈ tokens, token.kind ≠ .endOfInput := by
    intro token member
    have hword : token.word ∈ p.words := by
      rw [← hwords]
      exact List.mem_map_of_mem member
    exact (h.written _ hword).inside
  refine ⟨⟨items, ⟨.origin file, last.span.start⟩⟩, ?_, by rw [Program.bare, Program.bare, hbare]⟩
  rw [Program.ofSource, Program.spelling, htokens]
  exact Program.ofTokens_eq_ok_iff.2 (Spelling.program_of_items hitems hinside hlast)

theorem Program.ofSource_spelling_of_two_items :
    let p : Program := ⟨[.definition (.type ⟨⟨"t", default⟩, none, some [], none, default⟩),
      .definition (.function ⟨⟨"f", default⟩, some [⟨"x", default⟩],
        some ⟨[.returnValue (.binary .plus (.symbol "x" default) (.number 1 default) default) default],
          default⟩, default⟩)], default⟩
    p.spelling = "type t impl fn f ( x ) { return ( ( x ) + ( 1 ) ) }".toList
      ∧ ∃ q, Program.ofSource p.spelling "" = .ok q ∧ q.bare = p.bare :=
  ⟨by decide, Program.ofSource_spelling (by decide) (by decide) ""⟩

end WattFront
