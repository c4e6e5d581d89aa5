import WattFront.Proofs.Grammar.ProgramForms
import WattFront.Proofs.Tree.Shape
import WattFront.Proofs.Tree.Trace

/-! # The tree of a program keeps what its tokens say

A form is *faithful* if the tokens of every value leave exactly the traces of the value, in their order,
and the value has the shape that can be written down. `faithful_item` collects the forms of the grammar,
and `program_sound` says what a program that has been read tells about its tokens.
-/

namespace WattFront

/-- The tokens of a form leave the traces of its values, which have the shape that can be written down. -/
structure Form.Faithful {α : Type} (form : Form α) (traces : α → List Trace) (shaped : α → Bool) :
    Prop where
  traces {tokens next a} : form tokens next a → tokens.filterMap Token.trace? = traces a
  shaped {tokens next a} : form tokens next a → shaped a = true

structure Spelling.Inner.Faithful (inner : Spelling.Inner) : Prop where
  expr (power : BindingPower) : (inner.expr power).Faithful Expr.traces Expr.shaped
  block : inner.block.Faithful Block.traces Block.shaped

namespace Spelling

open Grammar

/-! ## Lists and clauses -/

section

variable {α : Type} {item : Form α} {traces : α → List Trace} {shaped : α → Bool}

theorem faithful_name : Name.Faithful (fun i => [i.trace]) (fun _ => true) where
  traces := by
    intro tokens next i hname
    obtain ⟨hkind⟩ := hname
    simp [Token.trace?, hkind, Ident.trace]
  shaped := fun _ => rfl

theorem faithful_many {goesOn : TokenKind → Bool} (h : item.Faithful traces shaped) :
    (Many goesOn item).Faithful (·.flatMap traces) (·.all shaped) where
  traces := by
    intro tokens next as hmany
    induction hmany with
    | nil => rfl
    | cons hitem _ ih => rw [List.filterMap_append, h.traces hitem, ih, List.flatMap_cons]
  shaped := by
    intro tokens next as hmany
    induction hmany with
    | nil => rfl
    | cons hitem _ ih => rw [List.all_cons, h.shaped hitem, ih, Bool.and_self]

theorem faithful_separated (h : item.Faithful traces shaped) :
    (Separated item).Faithful (·.flatMap traces) (·.all shaped) where
  traces := by
    intro tokens next as hitems
    induction hitems with
    | one hitem => rw [h.traces hitem, List.flatMap_singleton]
    | more hitem hcomma _ ih =>
      rw [List.filterMap_append, h.traces hitem, List.flatMap_cons]
      simpa [Token.trace?, hcomma] using ih
  shaped := by
    intro tokens next as hitems
    induction hitems with
    | one hitem => simp [h.shaped hitem]
    | more hitem _ _ ih => rw [List.all_cons, h.shaped hitem, ih, Bool.and_self]

theorem faithful_commaList {closing : TokenKind} (h : item.Faithful traces shaped)
    (hclosing : ∀ token : Token, token.kind = closing → token.trace? = none) :
    (CommaList closing item).Faithful (·.flatMap traces) (·.all shaped) where
  traces := by
    intro tokens next as hlist
    cases hlist with
    | nil hclose => simp [hclosing _ hclose]
    | cons hitems hclose => simp [hclosing _ hclose, (faithful_separated h).traces hitems]
  shaped := by
    intro tokens next as hlist
    cases hlist with
    | nil => rfl
    | cons hitems => exact (faithful_separated h).shaped hitems

theorem faithful_bracketed {opening closing : TokenKind} (h : item.Faithful traces shaped)
    (hopening : ∀ token : Token, token.kind = opening → token.trace? = none)
    (hclosing : ∀ token : Token, token.kind = closing → token.trace? = none) :
    (Bracketed opening closing item).Faithful (·.flatMap traces) (·.all shaped) where
  traces := by
    intro tokens next as hform
    obtain ⟨hopen, hlist⟩ := hform
    rw [List.filterMap_cons_none (hopening _ hopen), (faithful_commaList h hclosing).traces hlist]
  shaped := by
    intro tokens next as hform
    obtain ⟨_, hlist⟩ := hform
    exact (faithful_commaList h hclosing).shaped hlist

theorem faithful_clause {opening : TokenKind} (h : item.Faithful traces shaped) :
    (Clause opening item).Faithful (·.elim [] traces) (·.all shaped) where
  traces := by
    intro tokens next a? hclause
    cases hclause with
    | none => rfl
    | some hitem => exact h.traces hitem
  shaped := by
    intro tokens next a? hclause
    cases hclause with
    | none => rfl
    | some hitem => exact h.shaped hitem

end

theorem faithful_parameters : Parameters.Faithful (·.map Ident.trace) (fun _ => true) where
  traces := by
    intro tokens next names hform
    rw [List.map_eq_flatMap]
    refine (faithful_bracketed faithful_name ?_ ?_).traces hform
    all_goals
      intro token hkind
      simp [Token.trace?, hkind]
  shaped := fun _ => rfl

theorem traces_parameters {tokens : List Token} {next : Token} {parameters? : Option (List Ident)}
    (hclause : Clause .openParen Parameters tokens next parameters?) :
    tokens.filterMap Token.trace? = tracesOfParameters parameters? := by
  rw [(faithful_clause faithful_parameters).traces hclause]
  cases parameters? <;> rfl

theorem trace?_of_binaryOp {token : Token} {op : BinaryOp}
    (hop : BinaryOp.ofToken? token.kind = some op) : token.trace? = none := by
  rw [Token.trace?]
  cases hkind : token.kind <;> rw [hkind] at hop <;> first | rfl | cases hop

theorem trace?_of_assignOp {token : Token} {op : AssignOp}
    (hop : AssignOp.ofToken? token.kind = some op) : token.trace? = none := by
  rw [Token.trace?]
  cases hkind : token.kind <;> rw [hkind] at hop <;> first | rfl | cases hop

section

variable {inner : Inner} (h : inner.Faithful)

/-! ## Expressions -/

theorem faithful_literal : Literal.Faithful Expr.traces Expr.shaped where
  traces := by
    intro tokens next e hliteral
    cases hliteral with
    | number hkind hvalue => simp [Token.trace?, hkind, hvalue, Expr.traces]
    | string hkind => simp [Token.trace?, hkind, Expr.traces]
    | true hkind => simp [Token.trace?, hkind, Expr.traces]
    | false hkind => simp [Token.trace?, hkind, Expr.traces]
  shaped := by
    intro tokens next e hliteral
    cases hliteral <;> rfl

include h

theorem faithful_arguments :
    (Arguments inner).Faithful (·.flatMap Expr.traces) (·.all Expr.shaped) := by
  apply faithful_bracketed (h.expr .lowest)
  all_goals
    intro token hkind
    simp [Token.trace?, hkind]

theorem faithful_links : (Links inner).Faithful Expr.traces (fun e => e.isChain && e.shaped) where
  traces := by
    intro tokens next e hlinks
    induction hlinks with
    | name hkind => simp [Token.trace?, hkind, Expr.traces]
    | member _ hdot hproperty ih =>
      simp [ih, Token.trace?, hdot, hproperty, Expr.traces, Ident.trace]
    | call _ harguments _ ih =>
      simp [ih, (faithful_arguments h).traces harguments, Expr.traces]
    | propagate _ harguments hmark ih =>
      simp [ih, (faithful_arguments h).traces harguments, Token.trace?, hmark, Expr.traces]
  shaped := by
    intro tokens next e hlinks
    induction hlinks with
    | name => rfl
    | member _ _ _ ih =>
      rw [Bool.and_eq_true] at ih
      simp [Expr.isChain, Expr.shaped, ih]
    | call _ harguments _ ih | propagate _ harguments _ ih =>
      rw [Bool.and_eq_true] at ih
      have hall := (faithful_arguments h).shaped harguments
      simp only [Expr.isChain, Expr.shaped, Expr.allShaped_eq, ih, hall, Bool.and_self]

theorem faithful_chain : (Chain inner).Faithful Expr.traces (fun e => e.isChain && e.shaped) where
  traces := by
    intro tokens next e hchain
    obtain ⟨hlinks, _⟩ := hchain
    exact (faithful_links h).traces hlinks
  shaped := by
    intro tokens next e hchain
    obtain ⟨hlinks, _⟩ := hchain
    exact (faithful_links h).shaped hlinks

theorem faithful_entry : (Entry inner).Faithful Pair.traces Pair.shaped where
  traces := by
    intro tokens next p hentry
    obtain ⟨hkey, hcolon, hvalue⟩ := hentry
    simp [(h.expr _).traces hkey, (h.expr _).traces hvalue, Token.trace?, hcolon, Pair.traces]
  shaped := by
    intro tokens next p hentry
    obtain ⟨hkey, _, hvalue⟩ := hentry
    simp [Pair.shaped, (h.expr _).shaped hkey, (h.expr _).shaped hvalue]

theorem faithful_body : (Body inner).Faithful ArmBody.traces ArmBody.shaped where
  traces := by
    intro tokens next b hbody
    cases hbody with
    | expr harrow hvalue =>
      simp [Token.trace?, harrow, (h.expr _).traces hvalue, ArmBody.traces]
    | block hblock => exact h.block.traces hblock
  shaped := by
    intro tokens next b hbody
    cases hbody with
    | expr _ hvalue => exact (h.expr _).shaped hvalue
    | block hblock => exact h.block.shaped hblock

theorem faithful_case {keyword : TokenKind}
    (hkeyword : ∀ token : Token, token.kind = keyword → token.trace? = none) :
    (Case inner keyword).Faithful Arm.traces Arm.shaped where
  traces := by
    intro tokens next a hcase
    obtain ⟨hfirst, hpattern, hbody⟩ := hcase
    simp [hkeyword _ hfirst, (h.expr _).traces hpattern, (faithful_body h).traces hbody, Arm.traces]
  shaped := by
    intro tokens next a hcase
    obtain ⟨_, hpattern, hbody⟩ := hcase
    simp [Arm.shaped, (h.expr _).shaped hpattern, (faithful_body h).shaped hbody]

theorem faithful_operand : (Operand inner).Faithful Expr.traces Expr.shaped := by
  have hcase : (Case inner .kwCase).Faithful Arm.traces Arm.shaped :=
    faithful_case h fun token hkind => by simp [Token.trace?, hkind]
  have hdefault : (Case inner .kwDefault).Faithful Arm.traces Arm.shaped :=
    faithful_case h fun token hkind => by simp [Token.trace?, hkind]
  have hlist : (Bracketed .openBracket .closeBracket (inner.expr .lowest)).Faithful
      (·.flatMap Expr.traces) (·.all Expr.shaped) :=
    faithful_bracketed (h.expr _) (fun token hkind => by simp [Token.trace?, hkind])
      fun token hkind => by simp [Token.trace?, hkind]
  have hmap : (Bracketed .openCurly .closeCurly (Entry inner)).Faithful
      (·.flatMap Pair.traces) (·.all Pair.shaped) :=
    faithful_bracketed (faithful_entry h) (fun token hkind => by simp [Token.trace?, hkind])
      fun token hkind => by simp [Token.trace?, hkind]
  constructor
  · intro tokens next e hoperand
    cases hoperand with
    | literal hliteral => exact faithful_literal.traces hliteral
    | chain hchain => exact (faithful_chain h).traces hchain
    | list helements => simp [Expr.traces, hlist.traces helements]
    | map hpairs => simp [Expr.traces, hmap.traces hpairs]
    | negate hfirst hinner => simp [Expr.traces, Token.trace?, hfirst, (h.expr _).traces hinner]
    | not hfirst hinner => simp [Expr.traces, Token.trace?, hfirst, (h.expr _).traces hinner]
    | group hfirst hinner hclose => simp [Token.trace?, hfirst, hclose, (h.expr _).traces hinner]
    | new hfirst hname harguments =>
      simp [Expr.traces, Token.trace?, hfirst, hname, (faithful_arguments h).traces harguments,
        Ident.trace]
    | choice hfirst hscrutinee hcases hfallback =>
      simp [Expr.traces, Token.trace?, hfirst, (h.expr _).traces hscrutinee,
        (faithful_many hcase).traces hcases, (faithful_clause hdefault).traces hfallback]
    | lambda hfirst hparameters harrow hbody =>
      simp [Expr.traces, Token.trace?, hfirst, harrow, faithful_parameters.traces hparameters,
        (h.expr _).traces hbody]
    | function hfirst hparameters hbody =>
      simp [Expr.traces, Token.trace?, hfirst, faithful_parameters.traces hparameters,
        h.block.traces hbody]
  · intro tokens next e hoperand
    cases hoperand with
    | literal hliteral => exact faithful_literal.shaped hliteral
    | chain hchain => exact ((Bool.and_eq_true _ _).mp ((faithful_chain h).shaped hchain)).2
    | list helements => simpa [Expr.shaped] using hlist.shaped helements
    | map hpairs => simpa [Expr.shaped] using hmap.shaped hpairs
    | negate _ hinner => simpa [Expr.shaped] using (h.expr _).shaped hinner
    | not _ hinner => simpa [Expr.shaped] using (h.expr _).shaped hinner
    | group _ hinner _ => exact (h.expr _).shaped hinner
    | new _ _ harguments => simpa [Expr.shaped] using (faithful_arguments h).shaped harguments
    | choice _ hscrutinee hcases hfallback =>
      have harms := (faithful_many hcase).shaped hcases
      have hlast := (faithful_clause hdefault).shaped hfallback
      simp only [Expr.shaped, (h.expr _).shaped hscrutinee, Arm.allShaped_eq, Arm.shaped?_eq, harms,
        hlast, Bool.and_self]
    | lambda _ _ _ hbody => simpa [Expr.shaped] using (h.expr _).shaped hbody
    | function _ _ hbody => simpa [Expr.shaped] using h.block.shaped hbody

theorem faithful_operated {power : BindingPower} :
    (Operated inner power).Faithful Expr.traces Expr.shaped where
  traces := by
    intro tokens next e hoperated
    induction hoperated with
    | operand hoperand => exact (faithful_operand h).traces hoperand
    | binary _ _ hop hright ih =>
      simp [ih, trace?_of_binaryOp hop, (h.expr _).traces hright, Expr.traces]
  shaped := by
    intro tokens next e hoperated
    induction hoperated with
    | operand hoperand => exact (faithful_operand h).shaped hoperand
    | binary _ _ _ hright ih => simp [Expr.shaped, ih, (h.expr _).shaped hright]

theorem faithful_expression {power : BindingPower} :
    (Expression inner power).Faithful Expr.traces Expr.shaped where
  traces := by
    intro tokens next e hexpression
    obtain ⟨hoperated, _⟩ := hexpression
    exact (faithful_operated h).traces hoperated
  shaped := by
    intro tokens next e hexpression
    obtain ⟨hoperated, _⟩ := hexpression
    exact (faithful_operated h).shaped hoperated

/-! ## Statements -/

theorem faithful_elif : (Elif inner).Faithful Branch.traces Branch.shaped where
  traces := by
    intro tokens next b helif
    obtain ⟨hfirst, hcondition, hbody⟩ := helif
    simp [Token.trace?, hfirst, (h.expr _).traces hcondition, h.block.traces hbody, Branch.traces]
  shaped := by
    intro tokens next b helif
    obtain ⟨_, hcondition, hbody⟩ := helif
    simp [Branch.shaped, (h.expr _).shaped hcondition, h.block.shaped hbody]

theorem faithful_otherwise : (Otherwise inner).Faithful Block.traces Block.shaped where
  traces := by
    intro tokens next b hotherwise
    obtain ⟨hfirst, hbody⟩ := hotherwise
    simp [Token.trace?, hfirst, h.block.traces hbody]
  shaped := by
    intro tokens next b hotherwise
    obtain ⟨_, hbody⟩ := hotherwise
    exact h.block.shaped hbody

theorem faithful_named : (Named inner).Faithful Function.traces Function.shaped where
  traces := by
    intro tokens next f hnamed
    obtain ⟨hfirst, hname, hparameters, hbody⟩ := hnamed
    simp [Token.trace?, hfirst, hname, traces_parameters hparameters,
      (faithful_clause h.block).traces hbody, Function.traces, Ident.trace]
  shaped := by
    intro tokens next f hnamed
    obtain ⟨_, _, _, hbody⟩ := hnamed
    simpa [Function.shaped] using (faithful_clause h.block).shaped hbody

theorem faithful_statement : (Statement inner).Faithful Stmt.traces Stmt.shaped where
  traces := by
    intro tokens next s hstatement
    cases hstatement with
    | define htarget hmark hvalue =>
      simp [Token.trace?, hmark, (faithful_chain h).traces htarget, (h.expr _).traces hvalue, Stmt.traces]
    | assign htarget hmark hvalue =>
      simp [trace?_of_assignOp hmark, (faithful_chain h).traces htarget, (h.expr _).traces hvalue,
        Stmt.traces]
    | expression hchain => simp [(faithful_chain h).traces hchain, Stmt.traces]
    | returnValue hfirst hvalue =>
      simp [Token.trace?, hfirst, (h.expr _).traces hvalue, Stmt.traces]
    | whileLoop hfirst hcondition hbody =>
      simp [Token.trace?, hfirst, (h.expr _).traces hcondition, h.block.traces hbody, Stmt.traces]
    | conditional hfirst hcondition hbody helifs hotherwise =>
      simp [Token.trace?, hfirst, (h.expr _).traces hcondition, h.block.traces hbody,
        (faithful_many (faithful_elif h)).traces helifs,
        (faithful_clause (faithful_otherwise h)).traces hotherwise, Stmt.traces]
    | forLoop hfirst hname hword hiterable hbody =>
      simp [Token.trace?, hfirst, hname, hword, (h.expr _).traces hiterable, h.block.traces hbody,
        Stmt.traces, Ident.trace]
    | breakLoop hfirst => simp [Token.trace?, hfirst, Stmt.traces]
    | continueLoop hfirst => simp [Token.trace?, hfirst, Stmt.traces]
    | native hfirst hname harrow hsymbol =>
      simp [Token.trace?, hfirst, hname, harrow, hsymbol, Stmt.traces, Ident.trace]
    | function hnamed => simp [(faithful_named h).traces hnamed, Stmt.traces]
  shaped := by
    intro tokens next s hstatement
    cases hstatement with
    | define htarget _ hvalue | assign htarget _ hvalue =>
      rw [Stmt.shaped, (faithful_chain h).shaped htarget, (h.expr _).shaped hvalue, Bool.and_self]
    | expression hchain => exact (faithful_chain h).shaped hchain
    | returnValue _ hvalue => simpa [Stmt.shaped] using (h.expr _).shaped hvalue
    | whileLoop _ hcondition hbody =>
      simp [Stmt.shaped, (h.expr _).shaped hcondition, h.block.shaped hbody]
    | conditional _ hcondition hbody helifs hotherwise =>
      have hall := (faithful_many (faithful_elif h)).shaped helifs
      have hlast := (faithful_clause (faithful_otherwise h)).shaped hotherwise
      simp only [Stmt.shaped, (h.expr _).shaped hcondition, h.block.shaped hbody,
        Branch.allShaped_eq, Block.shaped?_eq, hall, hlast, Bool.and_self]
    | forLoop _ _ _ hiterable hbody =>
      simp [Stmt.shaped, (h.expr _).shaped hiterable, h.block.shaped hbody]
    | breakLoop | continueLoop | native => rfl
    | function hnamed => simpa [Stmt.shaped] using (faithful_named h).shaped hnamed

theorem faithful_braced : (Braced inner).Faithful Block.traces Block.shaped where
  traces := by
    intro tokens next b hbraced
    obtain ⟨hfirst, hstatements, hclose⟩ := hbraced
    simp [Token.trace?, hfirst, hclose, (faithful_many (faithful_statement h)).traces hstatements,
      Block.traces]
  shaped := by
    intro tokens next b hbraced
    obtain ⟨_, hstatements, _⟩ := hbraced
    simpa [Block.shaped] using (faithful_many (faithful_statement h)).shaped hstatements

end

theorem faithful_upTo (levels : Nat) : (upTo levels).Faithful := by
  induction levels with
  | zero => exact ⟨fun _ => ⟨fun hform => hform.elim, fun hform => hform.elim⟩,
      ⟨fun hform => hform.elim, fun hform => hform.elim⟩⟩
  | succ levels ih => exact ⟨fun _ => faithful_expression ih, faithful_braced ih⟩

/-! ## Items -/

theorem faithful_alias : Alias.Faithful (fun i => [i.trace]) (fun _ => true) where
  traces := by
    intro tokens next i halias
    obtain ⟨hfirst, hname⟩ := halias
    simp [Token.trace?, hfirst, hname, Ident.trace]
  shaped := fun _ => rfl

theorem faithful_singleImport : SingleImport.Faithful Import.traces (fun _ => true) where
  traces := by
    intro tokens next i hsingle
    obtain ⟨hpath, halias⟩ := hsingle
    rw [List.filterMap_cons, (faithful_clause faithful_alias).traces halias]
    rename_i alias?
    cases alias? <;> simp [Token.trace?, hpath, Import.traces]
  shaped := fun _ => rfl

theorem faithful_imports : Imports.Faithful (·.flatMap Import.traces) (fun list => !list.isEmpty) where
  traces := by
    intro tokens next list himports
    cases himports with
    | one hsingle => simp [faithful_singleImport.traces hsingle]
    | list hopen hlist hclose =>
      simp [Token.trace?, hopen, hclose, (faithful_separated faithful_singleImport).traces hlist]
  shaped := by
    intro tokens next list himports
    cases himports with
    | one => rfl
    | list _ hlist _ => cases hlist <;> rfl

theorem traces_traits {tokens : List Token} {next : Token} {names? : Option (List Ident)}
    (htraits : Traits tokens next names?) : tokens.filterMap Token.trace? = tracesOfTraits names? := by
  cases htraits with
  | none => rfl
  | @some word _ _ _ hword hnames =>
    have htrace : word.trace? = some (.name "impl") := by rw [Token.trace?, hword.1, hword.2]
    rw [List.filterMap_cons_some htrace, tracesOfTraits]
    cases hnames with
    | nil => rfl
    | cons hnames => rw [(faithful_separated faithful_name).traces hnames, List.map_eq_flatMap]

section

variable {inner : Inner} (h : inner.Faithful)

include h

theorem faithful_defined : (Defined inner).Faithful Definition.traces Definition.shaped where
  traces := by
    intro tokens next d hdefined
    cases hdefined with
    | function hnamed => exact (faithful_named h).traces hnamed
    | trait hfirst hname hbrace hmethods hclose =>
      simp [Token.trace?, hfirst, hname, hbrace, hclose, (faithful_many (faithful_named h)).traces hmethods,
        Definition.traces, Ident.trace]
    | type hfirst hname hparameters htraits hbody =>
      simp [Token.trace?, hfirst, hname, traces_parameters hparameters, traces_traits htraits,
        (faithful_clause h.block).traces hbody, Definition.traces, Ident.trace]
    | unit hfirst hname hbody =>
      simp [Token.trace?, hfirst, hname, (faithful_clause h.block).traces hbody, Definition.traces,
        Ident.trace]
  shaped := by
    intro tokens next d hdefined
    cases hdefined with
    | function hnamed => exact (faithful_named h).shaped hnamed
    | trait _ _ _ hmethods _ => exact (faithful_many (faithful_named h)).shaped hmethods
    | type _ _ _ _ hbody => simpa [Definition.shaped] using (faithful_clause h.block).shaped hbody
    | unit _ _ hbody => simpa [Definition.shaped] using (faithful_clause h.block).shaped hbody

theorem faithful_item : (Spelling.Item inner).Faithful Item.traces Item.shaped where
  traces := by
    intro tokens next i hitem
    cases hitem with
    | definition hdefined => exact (faithful_defined h).traces hdefined
    | imports hfirst himports =>
      simp [Token.trace?, hfirst, faithful_imports.traces himports, Item.traces, Stmt.traces]
    | statement hstatement _ => exact (faithful_statement h).traces hstatement
  shaped := by
    intro tokens next i hitem
    cases hitem with
    | definition hdefined => exact (faithful_defined h).shaped hdefined
    | imports _ himports => exact faithful_imports.shaped himports
    | statement hstatement halone =>
      have hshaped := (faithful_statement h).shaped hstatement
      cases hstatement with
      | expression | breakLoop | continueLoop | function => exact halone.elim
      | _ => exact hshaped

end

end Spelling

/-! ## Programs -/

/-- The tokens of a program that has been read, up to the first end of input, spell the program: its
constructs stand one after the other in the forms of the grammar, and nothing is left over. What the
tokens say is what the tree says, in the same order; only the word in front of the traits of a type has no
other place in the tree. The tree has the shape that can be written down. -/
theorem Program.ofTokens_sound {tokens : List Token} {file : String} {p : Program}
    (h : Program.ofTokens tokens file = .ok p) :
    Spelling.Program tokens file p
      ∧ (tokens.takeWhile (·.kind ≠ .endOfInput)).filterMap Token.trace? = p.traces
      ∧ p.shaped = true := by
  have hspelling := Program.ofTokens_eq_ok_iff.1 h
  have hitems : Form.Faithful (Spelling.Many Grammar.insideProgram _) _ _ :=
    Spelling.faithful_many (Spelling.faithful_item (Spelling.faithful_upTo maxNesting))
  exact ⟨hspelling, hitems.traces hspelling.items, hitems.shaped hspelling.items⟩

theorem Program.ofTokens_sound_of_call :
    let tokens : List Token := [⟨.identifier, "x", default⟩, ⟨.define, ":=", default⟩,
      ⟨.identifier, "f", default⟩, ⟨.openParen, "(", default⟩, ⟨.number, "1", default⟩,
      ⟨.closeParen, ")", default⟩, ⟨.question, "?", default⟩, .endOfInput default]
    let p : Program := ⟨[.statement (.define (.symbol "x" default)
      (.call (.symbol "f" default) [.number 1 default] true default) default)], ⟨.origin "", default⟩⟩
    Program.ofTokens tokens "" = .ok p ∧ Spelling.Program tokens "" p
      ∧ (tokens.takeWhile (·.kind ≠ .endOfInput)).filterMap Token.trace? = p.traces
      ∧ p.shaped = true :=
  ⟨rfl, Program.ofTokens_sound rfl⟩

end WattFront
