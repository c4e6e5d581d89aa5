import WattFront.Proofs.Grammar.Congruence
import WattFront.Proofs.Grammar.ParallelItems
import WattFront.Proofs.Tree.Moved

/-! # One token of lookahead

A reading is *local* if nothing behind the token it stops at has a say in what comes of it. Every construct
of the grammar is local: two runs on tapes that are the same up to that token stay in step until then
(`Reading.Local.of_follows`), and what is built in the same way from the same tokens is the same.

* `Construct` — what the grammar is made of, with `Construct.isLocal`, and `Construct.related` for congruences;
* `settled_by_lookahead` — the result.
-/

namespace WattFront

open Grammar

/-- A reading that has stopped, whether it is done or has failed, would have stopped at the same place with
the same outcome on any other tape that agrees up to the token it has stopped at. -/
def Reading.Local {α : Type} (x : Reading α) : Prop :=
  ∀ ⦃c d : Cursor⦄, d.index = c.index → d.depth = c.depth →
    (∀ i ≤ (x c).cursor.index, d.tape.at i = c.tape.at i) →
    (x d).result = (x c).result ∧ (x d).cursor.index = (x c).cursor.index
      ∧ (x d).cursor.depth = (x c).cursor.depth

namespace Token.Alike

theorem refl (t : Token) : t.Alike t :=
  ⟨rfl, fun _ => rfl, fun _ => Iff.rfl⟩

end Token.Alike

namespace Reading.Local

variable {α β : Type} {x : Reading α}

/-- A reading whose runs stay in step is local, if values that correspond by equal tokens are equal. -/
theorem of_follows [x.Forward] {gain : Nat} {F : (Token → Token → Prop) → α → α → Prop}
    (hx : ∀ w : TapePair, w.Follows 0 gain x x (F w.Related))
    (heq : ∀ {T : Token → Token → Prop}, (∀ {t u}, T t u → t = u) → ∀ {a b}, F T a b → a = b) :
    x.Local := by
  intro c d hindex hdepth hagree
  let w : TapePair :=
    { left := c.tape
      right := d.tape
      limit := (x c).cursor.index
      alike := fun {i} hi => by
        rw [Nat.add_zero, hagree i hi]
        exact .refl _ }
  have hsame {t u : Token} (h : w.Related t u) : t = u := by
    obtain ⟨i, hi, rfl, rfl⟩ := h
    exact (hagree i hi).symm
  have hstep : w.InStep c d := ⟨rfl, rfl, hindex, hdepth, Forward.le x c⟩
  have hmeets := hx w hstep (Nat.zero_le _)
  have hlimit : w.limit = (x c).cursor.index := rfl
  generalize x c = o at hmeets hlimit ⊢
  generalize x d = o' at hmeets ⊢
  cases hmeets with
  | done hab hstep' => exact ⟨congrArg Except.ok (heq hsame hab).symm, hstep'.index, hstep'.depth⟩
  | failed hfg hstep' => exact ⟨congrArg Except.error (hfg.eq hsame).symm, hstep'.index, hstep'.depth⟩
  | beyond h => exact absurd h.past (by omega)

theorem map (f : α → β) (hx : x.Local) : (f <$> x).Local := by
  intro c d hindex hdepth hagree
  have hcursor (c : Cursor) : ((f <$> x) c).cursor = (x c).cursor := by
    rw [map_apply]
    cases x c <;> rfl
  have hresult (c : Cursor) : ((f <$> x) c).result = f <$> (x c).result := by
    rw [map_apply]
    cases x c <;> rfl
  rw [hcursor] at hagree
  rw [hcursor, hcursor, hresult, hresult]
  obtain ⟨hr, hi, hd⟩ := hx hindex hdepth hagree
  exact ⟨by rw [hr], hi, hd⟩

/-- Cursors with as many levels open have the same room for more. -/
theorem atCursor {construct : Inner → Reading α} (h : ∀ levels, (construct (nested levels)).Local) :
    (atCursor construct).Local := by
  intro c d hindex hdepth hagree
  have hroom : d.room = c.room := by rw [Cursor.room, Cursor.room, hdepth]
  rw [Grammar.atCursor, Grammar.atCursor, hroom]
  exact h c.room hindex hdepth hagree

end Reading.Local

open Reading

/-! ## Constructs -/

namespace Grammar

section

variable {inner : Inner} [inner.Forward]

/-- A comma list of items that stay in step. It may even be closed by the end of input, which is not
consumed. -/
theorem local_commaList {α : Type} {item : Reading α} [item.Forward]
    {F : (Token → Token → Prop) → α → α → Prop} (close : TokenKind)
    (hitem : ∀ w : TapePair, w.Follows 0 1 item item (F w.Related))
    (heq : ∀ {T : Token → Token → Prop}, (∀ {t u}, T t u → t = u) → ∀ {a b}, F T a b → a = b) :
    (commaList close item).Local :=
  .of_follows (F := fun T => List.Forall₂ (F T))
    (fun w => TapePair.follows_commaList (fun _ => .expect_any close) (hitem w))
    fun hT _ _ hs => eq_of_forall₂ hs fun _ _ _ hab => heq hT hab

theorem local_names (close : TokenKind) : (commaList close identifier).Local :=
  local_commaList close (fun _ => TapePair.follows_identifier) Ident.Matches.eq

variable (h : ∀ w : TapePair, w.Reads inner)

include h

theorem local_operandOf (form : OperandForm) : (operandOf inner form).Local :=
  .of_follows (fun w => TapePair.follows_operandOf (h w) form) Expr.Matches.eq

/-- An operator is local whatever the left operand is, since the left operand is not looked at. -/
theorem local_operation (power : BindingPower) (left : Expr) : (operation inner power left).Local := by
  refine .of_follows (fun w => TapePair.follows_operation (h w) power left left)
    (F := fun T e e' => ∃ op right right', right.Matches T right'
        ∧ e = .binary op left right (left.span.through right.span)
        ∧ e' = .binary op left right' (left.span.through right'.span)) ?_
  rintro T hT _ _ ⟨op, right, right', hright, rfl, rfl⟩
  rw [hright.eq hT]

theorem local_statementOf (form : StatementForm) : (statementOf inner form).Local :=
  .of_follows (fun w => TapePair.follows_statementOf (h w) form) Stmt.Matches.eq

theorem local_reading (p : Production) : (p.reading inner).Local := by
  cases p with
  | expr power => exact .map _ (.of_follows (fun w => (h w).expr power) Expr.Matches.eq)
  | literal => exact .map _ (local_operandOf h .literal)
  | chain => exact .map _ (local_operandOf h .chain)
  | signed => exact .map _ (local_operandOf h .signed)
  | group => exact .map _ (local_operandOf h .group)
  | list => exact .map _ (local_operandOf h .list)
  | map => exact .map _ (local_operandOf h .map)
  | new => exact .map _ (local_operandOf h .new)
  | choice => exact .map _ (local_operandOf h .choice)
  | lambda => exact .map _ (local_operandOf h .lambda)
  | anonymousFunction => exact .map _ (local_operandOf h .function)
  | operation power left => exact .map _ (local_operation h power left)
  | arguments =>
    refine .map _ (.of_follows (F := fun T => List.Forall₂ (Expr.Matches T))
      (fun w => TapePair.follows_arguments (h w)) ?_)
    exact fun hT _ _ hes => eq_of_forall₂ hes fun _ _ _ he => he.eq hT
  | parameters => exact .map _ (.of_follows (fun w => TapePair.follows_parameters) eq_of_names)
  | names close => exact .map _ (local_names close)
  | statement => exact .map _ (.of_follows (fun w => TapePair.follows_statement (h w)) Stmt.Matches.eq)
  | chainStatement =>
    exact .map _ (.of_follows (fun w => TapePair.follows_chainStatement (h w)) Stmt.Matches.eq)
  | returnValue => exact .map _ (local_statementOf h .returnValue)
  | whileLoop => exact .map _ (local_statementOf h .whileLoop)
  | conditional => exact .map _ (local_statementOf h .conditional)
  | forLoop => exact .map _ (local_statementOf h .forLoop)
  | breakLoop => exact .map _ (local_statementOf h .breakLoop)
  | continueLoop => exact .map _ (local_statementOf h .continueLoop)
  | native => exact .map _ (local_statementOf h .native)
  | functionStatement => exact .map _ (local_statementOf h .function)
  | block => exact .map _ (.of_follows (fun w => (h w).block) Block.Matches.eq)
  | function => exact .map _ (.of_follows (fun w => TapePair.follows_function (h w)) Function.Matches.eq)
  | imports => exact .map _ (.of_follows (fun w => TapePair.follows_imports) Stmt.Matches.eq)
  | item => exact .map _ (.of_follows (fun w => TapePair.follows_item (h w)) Item.Matches.eq)
  | itemOf form => exact .map _ (.of_follows (fun w => TapePair.follows_itemOf (h w) form) Item.Matches.eq)

end

/-- The readings that the grammar is made of: its productions, and what they are made of in turn. -/
inductive Construct : {α : Type} → Reading α → Prop
  | production (p : Production) : Construct p.parse
  /-- An expression whose level of nesting is open already. -/
  | operations (power : BindingPower) : Construct (atCursor fun inner => operations inner power)
  | arm : Construct (atCursor Grammar.arm)
  | expressions (close : TokenKind) : Construct (atCursor fun inner => commaList close (inner.expr .lowest))
  | pairs (close : TokenKind) : Construct (atCursor fun inner => commaList close (pair inner))
  | singleImport : Construct Grammar.singleImport
  | importList (close : TokenKind) : Construct (commaList close Grammar.singleImport)
  | traitNames : Construct Grammar.traitNames
  | topLevelStatement : Construct (atCursor Grammar.topLevelStatement)
  | items : Construct Grammar.items

/-- Every construct of the grammar is local. -/
theorem Construct.isLocal {α : Type} {x : Reading α} (h : Construct x) : x.Local := by
  have hreads (levels : Nat) (w : TapePair) : w.Reads (nested levels) := TapePair.reads_nested levels
  cases h with
  | production p => exact .atCursor fun levels => local_reading (hreads levels) p
  | operations power =>
    exact .atCursor fun levels =>
      .of_follows (fun w => TapePair.follows_operations (hreads levels w) power) Expr.Matches.eq
  | arm =>
    exact .atCursor fun levels =>
      .of_follows (fun w => TapePair.follows_arm (hreads levels w)) Arm.Matches.eq
  | expressions close =>
    exact .atCursor fun levels =>
      local_commaList close (fun w => (hreads levels w).expr .lowest) Expr.Matches.eq
  | pairs close =>
    exact .atCursor fun levels =>
      local_commaList close (fun w => TapePair.follows_pair (hreads levels w)) Pair.Matches.eq
  | singleImport => exact .of_follows (fun w => TapePair.follows_singleImport) Import.Matches.eq
  | importList close =>
    exact local_commaList close (fun w => TapePair.follows_singleImport) Import.Matches.eq
  | traitNames => exact .of_follows (fun w => TapePair.follows_traitNames) eq_of_names
  | topLevelStatement =>
    exact .atCursor fun levels =>
      .of_follows (fun w => TapePair.follows_topLevelStatement (hreads levels w)) Stmt.Matches.eq
  | items =>
    refine .of_follows (F := fun T => List.Forall₂ (Item.Matches T))
      (fun w => TapePair.follows_items) ?_
    exact fun hT _ _ his => eq_of_forall₂ his fun _ _ _ hi => hi.eq hT

/-- A congruence that ties holds of everything that the grammar is made of. -/
theorem Construct.related {K : Congruence} (hties : K.Ties) {α : Type} {x : Reading α} (h : Construct x) :
    K.rel x x := by
  have htie {α : Type} {construct : Inner → Reading α}
      (hconstruct : ∀ inner inner' : Inner, [Inner.Related K inner inner'] →
        Related K (construct inner) (construct inner')) :
      Related K (atCursor construct) (atCursor construct) :=
    ⟨hties fun inner inner' _ => (hconstruct inner inner').rel⟩
  suffices Related K x x from this.rel
  cases h with
  | production p => exact htie fun inner inner' _ => related_reading inner inner' p
  | operations power => exact htie fun inner inner' _ => related_operations inner inner' power
  | arm => exact htie fun inner inner' _ => related_arm inner inner'
  | expressions close => exact htie fun inner inner' _ => related_commaList close
  | pairs close => exact htie fun inner inner' _ => related_commaList close
  | singleImport => exact related_singleImport
  | importList close => exact related_commaList close
  | traitNames => exact related_traitNames
  | topLevelStatement => exact htie fun inner inner' _ => related_topLevelStatement inner inner'
  | items =>
    have hitem : Related K (atCursor item) (atCursor item) := htie fun inner inner' _ => related_item inner inner'
    exact .many

end Grammar

/-! ## Programs -/

variable {tokens others : List Token} {file : String}

/-- Two lists that agree up to an index put the same tokens on their tapes up to it. If the index is past the
end of one of them, the lists are the same. -/
theorem Cursor.start_at_eq {n : Nat} (h : ∀ i ≤ n, others[i]? = tokens[i]?) {i : Nat} (hi : i ≤ n) :
    (start others file).tape.at i = (start tokens file).tape.at i := by
  by_cases hlength : i < tokens.length
  · have hother := h i hi
    rw [List.getElem?_eq_getElem hlength] at hother
    simp [start, tape, Tape.at, List.getD_eq_getElem?_getD, hother, hlength]
  · have hnone : others[i]? = none := by
      rw [h i hi]
      exact List.getElem?_eq_none (by omega)
    have hsame : others = tokens := by
      refine List.ext_getElem? fun k => ?_
      by_cases hk : k ≤ n
      · exact h k hk
      · rw [List.getElem?_eq_none_iff] at hnone
        rw [List.getElem?_eq_none (by omega), List.getElem?_eq_none (by omega)]
    rw [hsame]

theorem Program.ofTokens_of_result {f : Failure} (h : (Grammar.items (.start tokens file)).result = .error f) :
    ofTokens tokens file = .error f := by
  rw [ofTokens]
  cases hrun : Grammar.items (.start tokens file) with
  | done list c =>
    rw [hrun] at h
    cases h
  | failed failure c =>
    rw [hrun] at h
    cases h
    rfl

/-- One token of lookahead settles everything: what comes of a construct, and where it stops, depends on no
token behind the one it stops at. So nothing behind that token has a say in the failure of a program. -/
theorem settled_by_lookahead :
    (∀ {α : Type} {x : Reading α}, Construct x → x.Local)
      ∧ ∀ {tokens others : List Token} {file : String} {f : Failure} {stop : Cursor},
        items (.start tokens file) = .failed f stop →
        (∀ i ≤ stop.index, others[i]? = tokens[i]?) → Program.ofTokens others file = .error f := by
  refine ⟨Construct.isLocal, fun {tokens others file f stop} hfailed hagree => ?_⟩
  have hlocal := Construct.items.isLocal
    (c := .start tokens file) (d := .start others file) rfl rfl
    (fun i hi => Cursor.start_at_eq hagree (by rwa [hfailed] at hi))
  refine Program.ofTokens_of_result (hlocal.1.trans ?_)
  rw [hfailed]
  rfl

/-- A function without a name fails at the token behind `fn`, whatever stands behind that one. -/
theorem settled_by_lookahead_of_missing_name :
    let tokens : List Token := [⟨.kwFn, "fn", default⟩, ⟨.number, "1", default⟩, ⟨.dot, ".", default⟩]
    let others : List Token := [⟨.kwFn, "fn", default⟩, ⟨.number, "1", default⟩, ⟨.string, "x", default⟩]
    let f : Failure := ⟨.unexpectedToken "identifier" "1", default⟩
    Reading.Local (atCursor fun inner => operations inner .lowest)
      ∧ (∃ stop, items (.start tokens "") = .failed f stop ∧ ∀ i ≤ stop.index, others[i]? = tokens[i]?)
      ∧ Program.ofTokens others "" = .error f := by
  intro tokens others f
  have hlocal := settled_by_lookahead.1 (.operations .lowest)
  let stop : Cursor := ⟨[⟨.kwFn, "fn", default⟩], tokens.drop 1, .empty default, "", 0⟩
  have hfailed : items (.start tokens "") = .failed f stop := rfl
  have hagree : ∀ i ≤ stop.index, others[i]? = tokens[i]? := by decide
  exact ⟨hlocal, ⟨stop, hfailed, hagree⟩, settled_by_lookahead.2 hfailed hagree⟩

end WattFront
