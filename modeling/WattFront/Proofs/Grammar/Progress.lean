import WattFront.Grammar.Production
import WattFront.Proofs.Grammar.Forward
import WattFront.Proofs.Grammar.Passing

/-! # What is read takes up tokens

A reading *consumes* if its cursor has moved on whenever it is done. Consuming the end of input does not move a
cursor, so this is not a matter of counting calls: a construct consumes because it starts with a token of a certain
kind, or because an expression or a block inside it consumes.

* `Reading.Consumes` — for a sequence either the first part consumes (`bind`), or what is behind it does
  (`behind`); one instance for each construct;
* `consumes_nested` — expressions and blocks of any depth;
* `Production.parse_consumes` — the result for productions.
-/

namespace WattFront

open Grammar

namespace Reading

variable {α β : Type}

class Consumes (x : Reading α) : Prop where
  lt (x) : ∀ ⦃c d : Cursor⦄ ⦃a : α⦄, x c = .done a d → c.index < d.index

theorem Forward.le_of_done (x : Reading α) [x.Forward] {c d : Cursor} {a : α} (h : x c = .done a d) :
    c.index ≤ d.index := by
  have hle := Forward.le x c
  rwa [h] at hle

namespace Consumes

variable {x : Reading α} {f : α → Reading β}

/-! ## Sequences and choices -/

/-- The first part of a sequence consumes a token. -/
instance bind [x.Consumes] [∀ a, (f a).Forward] : (x >>= f).Consumes where
  lt c d b h := by
    obtain ⟨a, e, hx, hf⟩ := bind_eq_done.1 h
    exact Nat.lt_of_lt_of_le (Consumes.lt x hx) (Forward.le_of_done (f a) hf)

/-- What is behind the first part of a sequence consumes a token. -/
theorem behind [x.Forward] (hf : ∀ a, (f a).Consumes) : (x >>= f).Consumes where
  lt c d b h := by
    obtain ⟨a, e, hx, hdone⟩ := bind_eq_done.1 h
    exact Nat.lt_of_le_of_lt (Forward.le_of_done x hx) ((hf a).lt hdone)

instance map {g : α → β} [x.Consumes] : (g <$> x).Consumes where
  lt c d b h := by
    obtain ⟨a, hx, -⟩ := map_eq_done.1 h
    exact Consumes.lt x hx

instance fail (cause : Failure.Cause) (position : Position) :
    (Reading.fail cause position : Reading α).Consumes :=
  ⟨fun _ _ _ h => absurd h not_fail_eq_done⟩

instance unexpected (expected : String) : (Reading.unexpected expected : Reading α).Consumes :=
  ⟨fun _ _ _ h => absurd h not_unexpected_eq_done⟩

instance tooDeep : (Reading.tooDeep : Reading α).Consumes :=
  ⟨fun _ _ _ => nofun⟩

/-! ## Tokens -/

/-- A token is consumed unless it is the end of input. -/
theorem lt_next {c : Cursor} (h : c.kind ≠ .endOfInput) : c.index < c.next.index := by
  rcases c.next_cases with ⟨-, hend⟩ | ⟨-, hindex, -⟩
  · exact absurd hend h
  · omega

theorem expectAs {kind : TokenKind} (hkind : kind ≠ .endOfInput) (expected : String) :
    (Reading.expectAs kind expected).Consumes where
  lt c d token h := by
    rw [Reading.expectAs] at h
    split at h
    · next hc =>
      cases h
      exact lt_next (hc ▸ hkind)
    · cases h

theorem expect {kind : TokenKind} (hkind : kind ≠ .endOfInput) : (Reading.expect kind).Consumes :=
  expectAs hkind _

/-- A sequence that starts with a token. -/
theorem opens {kind : TokenKind} {f : Token → Reading β} (hkind : kind ≠ .endOfInput)
    [∀ token, (f token).Forward] : (Reading.expect kind >>= f).Consumes :=
  have := expect hkind
  .bind

instance closing [x.Consumes] : (Reading.closing x).Consumes where
  lt c d a h := by
    rw [Reading.closing] at h
    cases hx : x c with
    | done b e =>
      rw [hx] at h
      cases h
      have hlt : c.index < e.index := Consumes.lt x hx
      exact hlt
    | failed f e =>
      rw [hx] at h
      cases h

theorem within [x.Consumes] : (Reading.within x).Consumes := by
  rw [within_eq]
  exact .behind fun _ => inferInstance

end Consumes

end Reading

/-! ## Constructs -/

namespace Grammar

open Reading

instance consumes_identifier : identifier.Consumes :=
  .opens nofun

/-- A comma list consumes its closing bracket, which is not the end of input. -/
theorem consumes_commaList {α : Type} {item : Reading α} [item.Forward] {close : TokenKind}
    (hclose : close ≠ .endOfInput) : (commaList close item).Consumes := by
  unfold commaList
  refine .behind fun kind => ?_
  dsimp only
  split
  · exact .behind fun _ => .opens hclose
  · exact .behind fun _ => .opens hclose

instance consumes_parameters : parameters.Consumes :=
  .opens nofun

/-- A literal is one token. -/
instance consumes_literal : literal.Consumes where
  lt c d e h := by
    suffices hnext : d = c.next ∧ c.kind ≠ .endOfInput from hnext.1 ▸ Consumes.lt_next hnext.2
    rw [literal, cursor_bind, show c.current.kind = c.kind from rfl] at h
    generalize c.kind = kind at h ⊢
    split at h
    · cases hvalue : Numeral.value? c.current.value.toList with
      | some value =>
        rw [hvalue] at h
        cases h
        exact ⟨rfl, nofun⟩
      | none =>
        rw [hvalue] at h
        exact absurd h not_fail_eq_done
    · cases h
      exact ⟨rfl, nofun⟩
    · cases h
      exact ⟨rfl, nofun⟩
    · cases h
      exact ⟨rfl, nofun⟩
    · exact absurd h not_unexpected_eq_done

class Inner.Consumes (inner : Inner) : Prop where
  expr (power : BindingPower) : (inner.expr power).Consumes
  block : inner.block.Consumes

attribute [instance] Inner.Consumes.expr Inner.Consumes.block

section

variable (inner : Inner) [inner.Forward]

instance consumes_arguments : (arguments inner).Consumes :=
  .opens nofun

/-- A link consumes its dot, or the bracket of its arguments. -/
instance consumes_link (start : Position) (object : Expr) : (link inner start object).Consumes := by
  refine .behind fun dot => ?_
  split <;> infer_instance

instance consumes_chain : (chain inner).Consumes :=
  .behind fun _ => .bind

instance consumes_function : (function inner).Consumes :=
  .opens nofun

instance consumes_method : (method inner).Consumes := by
  refine .behind fun kind => ?_
  split <;> infer_instance

instance consumes_block : (block inner).Consumes :=
  .behind fun _ => .opens nofun

variable [inner.Consumes]

instance consumes_pair : (pair inner).Consumes :=
  .bind

instance consumes_arm : (arm inner).Consumes :=
  .behind fun _ => .bind

instance consumes_branch : (branch inner).Consumes :=
  .behind fun _ => .bind

instance consumes_operandOf (form : OperandForm) : (operandOf inner form).Consumes := by
  cases form with
  | literal => exact consumes_literal
  | chain => exact consumes_chain inner
  | signed => exact .behind fun _ => .bind
  | list | map | group | new | choice | lambda | function => exact .opens nofun

instance consumes_operand : (operand inner).Consumes := by
  refine .behind fun kind => ?_
  split <;> infer_instance

/-- An operator consumes at least the operand on its right. -/
instance consumes_operation (power : BindingPower) (left : Expr) : (operation inner power left).Consumes := by
  refine .behind fun token => ?_
  split <;> infer_instance

instance consumes_infixOf (form : InfixForm) (power : BindingPower) (left : Expr) :
    (infixOf inner form power left).Consumes := by
  cases form
  exact consumes_operation inner power left

instance consumes_nextOperation (left : Expr) : (nextOperation inner left).Consumes := by
  refine .behind fun kind => ?_
  split <;> infer_instance

instance consumes_operations (power : BindingPower) : (operations inner power).Consumes :=
  .bind

instance consumes_chainStatement : (chainStatement inner).Consumes := by
  refine .behind fun start => @Consumes.bind _ _ _ _ _ fun target => Forward.next fun kind => ?_
  split
  · infer_instance
  · split <;> infer_instance

instance consumes_statementOf (form : StatementForm) : (statementOf inner form).Consumes := by
  cases form with
  | function => exact .bind
  | returnValue | whileLoop | conditional | forLoop | breakLoop | continueLoop | native => exact .opens nofun

instance consumes_statement : (statement inner).Consumes := by
  refine .behind fun kind => ?_
  split
  · infer_instance
  · split <;> infer_instance

instance consumes_singleImport : singleImport.Consumes :=
  .opens nofun

instance consumes_imports : imports.Consumes :=
  .opens nofun

instance consumes_itemOf (form : ItemForm) : (itemOf inner form).Consumes := by
  have htrait : (trait inner).Consumes := .opens nofun
  have htype : (type inner).Consumes := .opens nofun
  have hunit : (unit inner).Consumes := .opens nofun
  cases form <;> exact .map

instance consumes_topLevelStatement : (topLevelStatement inner).Consumes := by
  have hchain : (topLevelChain inner).Consumes := .behind fun _ => .bind
  refine .behind fun kind => ?_
  split <;> infer_instance

instance consumes_item : (item inner).Consumes := by
  refine .behind fun kind => ?_
  split <;> infer_instance

/-- Every production consumes a token, but for a list of names that the end of input closes. -/
theorem consumes_reading {p : Production} (hp : ∀ close, p = .names close → close ≠ .endOfInput) :
    (p.reading inner).Consumes := by
  cases p with
  | names close =>
    have hlist : (commaList close identifier).Consumes := consumes_commaList (hp close rfl)
    exact .map
  | literal => exact @Consumes.map _ _ _ _ (consumes_operandOf inner .literal)
  | chain => exact @Consumes.map _ _ _ _ (consumes_operandOf inner .chain)
  | signed => exact @Consumes.map _ _ _ _ (consumes_operandOf inner .signed)
  | group => exact @Consumes.map _ _ _ _ (consumes_operandOf inner .group)
  | list => exact @Consumes.map _ _ _ _ (consumes_operandOf inner .list)
  | map => exact @Consumes.map _ _ _ _ (consumes_operandOf inner .map)
  | new => exact @Consumes.map _ _ _ _ (consumes_operandOf inner .new)
  | choice => exact @Consumes.map _ _ _ _ (consumes_operandOf inner .choice)
  | lambda => exact @Consumes.map _ _ _ _ (consumes_operandOf inner .lambda)
  | anonymousFunction => exact @Consumes.map _ _ _ _ (consumes_operandOf inner .function)
  | returnValue => exact @Consumes.map _ _ _ _ (consumes_statementOf inner .returnValue)
  | whileLoop => exact @Consumes.map _ _ _ _ (consumes_statementOf inner .whileLoop)
  | conditional => exact @Consumes.map _ _ _ _ (consumes_statementOf inner .conditional)
  | forLoop => exact @Consumes.map _ _ _ _ (consumes_statementOf inner .forLoop)
  | breakLoop => exact @Consumes.map _ _ _ _ (consumes_statementOf inner .breakLoop)
  | continueLoop => exact @Consumes.map _ _ _ _ (consumes_statementOf inner .continueLoop)
  | native => exact @Consumes.map _ _ _ _ (consumes_statementOf inner .native)
  | functionStatement => exact @Consumes.map _ _ _ _ (consumes_statementOf inner .function)
  | expr | operation | arguments | parameters | statement | chainStatement | block | function | imports | item
  | itemOf => exact .map

end

/-- Expressions and blocks of any depth consume a token. -/
instance consumes_nested (levels : Nat) : (nested levels).Consumes := by
  induction levels with
  | zero => exact ⟨fun _ => Consumes.tooDeep, Consumes.tooDeep⟩
  | succ levels ih => exact ⟨fun _ => Consumes.within, consumes_block _⟩

instance consumes_atCursor {α : Type} {construct : Inner → Reading α}
    [h : ∀ levels, (construct (nested levels)).Consumes] : (atCursor construct).Consumes :=
  ⟨fun c _ _ hdone => (h c.room).lt hdone⟩

end Grammar

/-- A production that is done has consumed a token, whatever the cursor. -/
theorem Production.parse_consumes {p : Production} (hp : ∀ close, p = .names close → close ≠ .endOfInput) :
    p.parse.Consumes :=
  ⟨fun c _ _ hdone => (consumes_reading (nested c.room) hp).lt hdone⟩

end WattFront
