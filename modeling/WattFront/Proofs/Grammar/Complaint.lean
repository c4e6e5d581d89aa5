import WattFront.Proofs.Grammar.Rounds
import WattFront.Proofs.Grammar.ParallelExpressions

/-! # What a failure complains of

A reading that fails complains of the token it has stopped at: the token is not what was expected, it is a
number out of range, or there is no room for what it opens. The cursor has not moved on, so the complaint is
about the current token (`Cursor.Rejects`).

There is one exception. At top level a bare chain is refused only when it has been read, and the complaint
goes back to its first token (`item_rejects`).

What was expected is a kind of token or one of a few forms (`Expectation`). That a token is no literal or no
operator is never the complaint. A literal is read only where a token opens one, and an operation only where a
token binds. The tables of what binds, of what goes on with an expression and of what spells an operator agree
(`bindingPower_eq_lowest_iff`, `infixForm?_eq_none_iff`), so such a token is one for all of them.
-/

namespace WattFront

open Grammar

/-- The wordings for what is expected where more than one kind of token would do, or where the kind of the token
does not say what it stands for. -/
def formWordings : List String :=
  ["expression", "statement", "definition", "`->` or block", "`elif` instead of `else if`",
    "loop variable name", "native symbol string"]

class inductive Expectation : String → Prop
  | kind (kind : TokenKind) : Expectation kind.describe
  | form {wording} (h : wording ∈ formWordings) : Expectation wording

attribute [instance] Expectation.kind

/-- No kind of token and no form is worded as an operator or a literal. -/
theorem Expectation.notMem {wording : String} (h : Expectation wording) :
    wording ∉ ["operator", "binary operator", "literal"] := by
  cases h with
  | kind kind => cases kind <;> decide
  | form h =>
    have hall : ∀ wording ∈ formWordings, wording ∉ ["operator", "binary operator", "literal"] := by decide
    exact hall wording h

/-- The failures that complain of the current token. -/
inductive Cursor.Rejects (c : Cursor) : Failure → Prop
  | unexpected (expected : String) [h : Expectation expected] : c.Rejects (c.unexpected expected)
  | tooDeep : c.Rejects c.tooDeep
  | badNumeral (hkind : c.kind = .number) (hvalue : Numeral.value? c.current.value.toList = none) :
    c.Rejects ⟨.numberOutOfRange c.current.value, c.here⟩

/-- The number of open levels does not matter to a complaint. -/
theorem Cursor.Rejects.leave {c : Cursor} {f : Failure} (h : c.Rejects f) : c.leave.Rejects f := by
  cases h with
  | unexpected expected => exact .unexpected (c := c.leave) expected
  | tooDeep => exact .tooDeep (c := c.leave)
  | badNumeral hkind hvalue => exact .badNumeral (c := c.leave) hkind hvalue

/-- At the end of input the only complaints are that it came too early and that there is no room. -/
theorem Cursor.Rejects.atEnd {c : Cursor} {f : Failure} (h : c.Rejects f) (hkind : c.kind = .endOfInput) :
    f.position = c.here ∧ ((∃ expected, f.cause = .unexpectedEnd expected)
      ∨ f.cause = .nestingTooDeep maxNesting) := by
  cases h with
  | unexpected expected => exact ⟨rfl, .inl ⟨expected, if_pos hkind⟩⟩
  | tooDeep => exact ⟨rfl, .inr rfl⟩
  | badNumeral hnumber =>
    rw [hkind] at hnumber
    cases hnumber

namespace Reading

variable {α β : Type}

/-- A reading that fails complains of the token it has stopped at. -/
class Complains (x : Reading α) : Prop where
  rejects (x) {c d : Cursor} {f : Failure} : x c = .failed f d → d.Rejects f

namespace Complains

variable {x : Reading α} {f : α → Reading β}

/-! ## Steps and sequences -/

instance pure (a : α) : (Pure.pure a : Reading α).Complains :=
  ⟨fun h => by cases h⟩

instance bind [hx : x.Complains] [hf : ∀ a, (f a).Complains] : (x >>= f).Complains where
  rejects {c d g} h := by
    rw [bind_apply] at h
    cases hrun : x c with
    | done a e =>
      rw [hrun] at h
      exact (hf a).rejects h
    | failed failure e =>
      rw [hrun] at h
      cases h
      exact hx.rejects hrun

/-- A sequence whose second part is chosen by cases. -/
theorem next [x.Complains] (h : ∀ a, (f a).Complains) : (x >>= f).Complains :=
  bind

instance map {g : α → β} [x.Complains] : (g <$> x).Complains :=
  ⟨fun h => rejects x (map_eq_failed.1 h)⟩

instance ite {p : Prop} [Decidable p] {y : Reading α} [x.Complains] [y.Complains] :
    (if p then x else y : Reading α).Complains := by
  split <;> infer_instance

instance cursor : Reading.cursor.Complains :=
  ⟨fun h => by cases h⟩

instance kind : Reading.kind.Complains :=
  ⟨fun h => by cases h⟩

instance here : Reading.here.Complains :=
  ⟨fun h => by cases h⟩

instance spanFrom (start : Position) : (Reading.spanFrom start).Complains :=
  ⟨fun h => by cases h⟩

instance unexpected (expected : String) [Expectation expected] :
    (Reading.unexpected expected : Reading α).Complains where
  rejects h := by
    cases h
    exact .unexpected expected

instance tooDeep : (Reading.tooDeep : Reading α).Complains where
  rejects h := by
    cases h
    exact .tooDeep

instance advance : Reading.advance.Complains :=
  ⟨fun h => by cases h⟩

instance expectAs (kind : TokenKind) (expected : String) [Expectation expected] :
    (Reading.expectAs kind expected).Complains where
  rejects h := by
    rw [Reading.expectAs] at h
    split at h
    · cases h
    · cases h
      exact .unexpected expected

instance expect (kind : TokenKind) : (Reading.expect kind).Complains :=
  expectAs kind _

instance accept (kind : TokenKind) : (Reading.accept kind).Complains where
  rejects h := by
    rw [Reading.accept] at h
    split at h <;> cases h

instance enter : Reading.enter.Complains where
  rejects h := by
    rw [Reading.enter] at h
    split at h
    · cases h
    · cases h
      exact .tooDeep

instance leave : Reading.leave.Complains :=
  ⟨fun h => by cases h⟩

/-! ## Choice, repetition and nesting -/

instance ifAt (kind : TokenKind) [x.Complains] : (Reading.ifAt kind x).Complains where
  rejects h := by
    rw [Reading.ifAt] at h
    split at h
    · exact rejects (some <$> x) h
    · cases h

/-- A loop fails like the round that fails, which starts at a token that calls for it. -/
theorem rounds {goesOn : TokenKind → Bool} {step : α → Reading α} {a : α}
    (hstep : ∀ ⦃a c d f⦄, goesOn c.kind = true → step a c = .failed f d → d.Rejects f) :
    (Reading.whileAt goesOn step a).Complains where
  rejects h := by
    obtain ⟨b, e, -, hgo, hfailed⟩ := exists_rounds_of_failed h
    exact hstep hgo hfailed

instance whileAt {goesOn : TokenKind → Bool} {step : α → Reading α} [hstep : ∀ a, (step a).Complains] (a : α) :
    (Reading.whileAt goesOn step a).Complains :=
  rounds fun a _ _ _ _ hfailed => (hstep a).rejects hfailed

instance many {goesOn : TokenKind → Bool} [x.Complains] : (Reading.many goesOn x).Complains :=
  inferInstanceAs (List.reverse <$> Reading.whileAt goesOn _ []).Complains

instance closing [x.Complains] : (Reading.closing x).Complains where
  rejects {c d g} h := by
    rw [Reading.closing] at h
    cases hrun : x c with
    | done a e =>
      rw [hrun] at h
      cases h
    | failed failure e =>
      rw [hrun] at h
      cases h
      exact (rejects x hrun).leave

instance within [x.Complains] : (Reading.within x).Complains := by
  rw [within_eq]
  infer_instance

end Complains

end Reading

/-! ## Constructs -/

namespace Grammar

open Reading

section

variable {α : Type} {item : Reading α} [item.Complains]

instance complains_identifier : identifier.Complains :=
  .bind

instance complains_separated : (separated item).Complains :=
  .bind

instance complains_commaList (close : TokenKind) : (commaList close item).Complains := by
  unfold commaList
  infer_instance

instance complains_parameters : parameters.Complains :=
  .bind

end

class Inner.Complains (inner : Inner) : Prop where
  expr (power : BindingPower) : (inner.expr power).Complains
  block : inner.block.Complains

attribute [instance] Inner.Complains.expr Inner.Complains.block

/-- The only thing that is wrong with a token that opens a literal is its number. -/
theorem literal_rejects {c d : Cursor} {f : Failure} (hform : c.kind.operandForm? = some .literal)
    (h : literal c = .failed f d) : d.Rejects f := by
  rw [TapePair.literal_apply] at h
  split at h
  · next hkind =>
    rw [TapePair.numeral] at h
    split at h
    · cases h
    · next hvalue =>
      cases h
      exact .badNumeral hkind hvalue
  · cases h
  · cases h
  · cases h
  · next hnumber hstring htrue hfalse =>
    rw [Cursor.kind] at hform
    generalize c.current.kind = kind at hform hnumber hstring htrue hfalse
    cases kind <;> simp_all [TokenKind.operandForm?]

section

variable (inner : Inner) [inner.Complains]

instance complains_arguments : (arguments inner).Complains :=
  .bind

instance complains_link (start : Position) (object : Expr) : (link inner start object).Complains :=
  .bind

instance complains_chain : (chain inner).Complains :=
  .bind

instance complains_pair : (pair inner).Complains :=
  .bind

instance complains_armBody : (armBody inner).Complains := by
  have hwording : Expectation "`->` or block" := .form (by decide)
  refine Complains.next fun kind => ?_
  split <;> infer_instance

instance complains_arm : (arm inner).Complains :=
  .bind

theorem operandOf_rejects {form : OperandForm} {c d : Cursor} {f : Failure}
    (hform : c.kind.operandForm? = some form) (h : operandOf inner form c = .failed f d) : d.Rejects f := by
  have hbind {α : Type} {x : Reading α} {k : α → Reading Expr} [x.Complains] [∀ a, (k a).Complains]
      (h : (x >>= k) c = .failed f d) : d.Rejects f := Complains.rejects (x >>= k) h
  cases form with
  | literal => exact literal_rejects hform h
  | chain => exact Complains.rejects (chain inner) h
  | list | map | signed | group | new | choice | lambda | function => exact hbind h

instance complains_operand : (operand inner).Complains where
  rejects {c d f} h := by
    rw [operand, kind_bind] at h
    cases hform : c.kind.operandForm? with
    | some form =>
      rw [hform] at h
      exact operandOf_rejects inner hform h
    | none =>
      rw [hform] at h
      have hwording : Expectation "expression" := .form (by decide)
      exact Complains.rejects (Reading.unexpected "expression") h

/-- A token that binds goes on with an operation and spells its operator, so nothing is wrong with it. -/
theorem nextOperation_rejects {power : BindingPower} {left : Expr} {c d : Cursor} {f : Failure}
    (hgo : bindsTighter power c.kind = true) (h : nextOperation inner left c = .failed f d) : d.Rejects f := by
  obtain ⟨op, hop⟩ := exists_operator hgo
  have hcurrent : BinaryOp.ofToken? c.current.kind = some op := hop
  rw [nextOperation_eq_operation hop, operation, advance_bind, hcurrent] at h
  exact Complains.rejects (inner.expr op.bindingPower >>= fun right =>
    (pure (.binary op left right (left.span.through right.span)) : Reading Expr)) h

instance complains_operations (power : BindingPower) : (operations inner power).Complains := by
  refine Complains.next fun first => Complains.rounds ?_
  intro left c d f hgo hfailed
  exact nextOperation_rejects inner hgo hfailed

instance complains_chainStatement : (chainStatement inner).Complains := by
  refine Complains.next fun start => Complains.next fun target => Complains.next fun kind => ?_
  split
  · infer_instance
  · split <;> infer_instance

instance complains_branch : (branch inner).Complains :=
  .bind

instance complains_otherwise : (otherwise inner).Complains := by
  have hwording : Expectation "`elif` instead of `else if`" := .form (by decide)
  exact .bind

instance complains_function : (function inner).Complains :=
  .bind

instance complains_statementOf (form : StatementForm) : (statementOf inner form).Complains := by
  have hname : Expectation "loop variable name" := .form (by decide)
  have hsymbol : Expectation "native symbol string" := .form (by decide)
  cases form <;> exact .bind

instance complains_statement : (statement inner).Complains := by
  have hwording : Expectation "statement" := .form (by decide)
  refine Complains.next fun kind => ?_
  split
  · infer_instance
  · split <;> infer_instance

instance complains_singleImport : singleImport.Complains :=
  .bind

instance complains_importList : importList.Complains :=
  .bind

instance complains_imports : imports.Complains := by
  unfold imports
  infer_instance

instance complains_traitNames : traitNames.Complains :=
  .bind

instance complains_traits? : traits?.Complains :=
  .bind

instance complains_method : (method inner).Complains := by
  have hwording : Expectation "`fn`" := .kind .kwFn
  exact .bind

instance complains_itemOf (form : ItemForm) : (itemOf inner form).Complains := by
  have htrait : (trait inner).Complains := .bind
  have htype : (type inner).Complains := .bind
  have hunit : (unit inner).Complains := .bind
  cases form <;> exact .map

end

/-- Expressions and blocks of any depth complain of the tokens they stop at. -/
instance complains_nested (levels : Nat) : (nested levels).Complains := by
  induction levels with
  | zero => exact ⟨fun _ => Complains.tooDeep, Complains.tooDeep⟩
  | succ levels ih => exact ⟨fun _ => Complains.within, Complains.bind⟩

/-! ## Items -/

def bareChain (first : Token) : Failure :=
  ⟨.unexpectedToken "definition or assignment" first.found, first.span.start⟩

section

variable {inner : Inner} [inner.Complains] {c d : Cursor} {f : Failure}

theorem topLevelChain_rejects (h : topLevelChain inner c = .failed f d) :
    d.Rejects f ∨ f = bareChain c.current ∧ ∃ s, chainStatement inner c = .done s d ∧ isExpression s = true := by
  rw [topLevelChain, cursor_bind, bind_apply] at h
  cases hrun : chainStatement inner c with
  | done s e =>
    rw [hrun] at h
    by_cases hexpression : isExpression s = true
    · simp only [Outcome.bind, hexpression, if_true] at h
      cases h
      exact .inr ⟨rfl, s, rfl, hexpression⟩
    · simp only [Outcome.bind, hexpression] at h
      cases h
  | failed g e =>
    rw [hrun] at h
    cases h
    exact .inl (Complains.rejects _ hrun)

/-- An item that fails complains of the token it has stopped at, or it is a bare chain. -/
theorem item_rejects (h : item inner c = .failed f d) :
    d.Rejects f ∨ c.kind = .identifier ∧ f = bareChain c.current
      ∧ ∃ s, chainStatement inner c = .done s d ∧ isExpression s = true := by
  rw [item_apply] at h
  split at h
  · exact .inl (Complains.rejects _ h)
  · rw [map_eq_failed, topLevelStatement_apply] at h
    split at h
    · have hwording : Expectation "definition" := .form (by decide)
      exact .inl (Complains.rejects (Reading.unexpected "definition") h)
    · split at h
      · next hkind => exact (topLevelChain_rejects h).imp_right fun hbare => ⟨hkind, hbare⟩
      · exact .inl (Complains.rejects _ h)

end

end Grammar

end WattFront
