import WattFront.Grammar.Production
import WattFront.Proofs.Grammar.Passing

/-! # Relations that carry over to constructs

A *congruence* is a relation between readings that carries over from the parts of a reading to the whole. No
construct is more than its parts put together, so whatever congruence holds between the expressions and blocks
inside a construct holds between the constructs, for one congruence as for any other.

A congruence does not open levels of nesting. How one gets from the inside of a level to the outside has to be
said for each congruence (`Reading.Congruence.Encloses`).

* `Cursor.atDepth` — the same place with another number of open levels;
* `Reading.Congruence`, `Reading.Related` — with one instance for each way to put readings together, and for
  each construct;
* `Grammar.related_level` — expressions and blocks around related contents;
* `Reading.Congruence.Ties` — what a congruence takes to hold of everything that the grammar is made of.
-/

namespace WattFront

open Grammar

/-! ## The same place at another depth -/

namespace Cursor

def atDepth (c : Cursor) (depth : Nat) : Cursor :=
  { c with depth := depth }

variable (c : Cursor) (n : Nat)

@[simp] theorem depth_atDepth : (c.atDepth n).depth = n := rfl

@[simp] theorem current_atDepth : (c.atDepth n).current = c.current := rfl

@[simp] theorem peek_atDepth (count : Nat) : (c.atDepth n).peek count = c.peek count := rfl

@[simp] theorem atWord_atDepth (word : String) : (c.atDepth n).atWord word = c.atWord word := rfl

@[simp] theorem atDepth_atDepth (m : Nat) : (c.atDepth n).atDepth m = c.atDepth m := rfl

@[simp] theorem atDepth_self : c.atDepth c.depth = c := rfl

@[simp] theorem leave_atDepth : (c.atDepth n).leave = c.atDepth (n - 1) := rfl

theorem next_atDepth : (c.atDepth n).next = c.next.atDepth n := by
  rcases c with ⟨behind, ahead, ending, file, depth⟩
  cases ahead with
  | nil => rfl
  | cons token tokens =>
    rw [next, next]
    simp only [atDepth]
    split <;> rfl

end Cursor

/-- A relation between readings that carries over from the parts of a reading to the whole. A part may look at the
place of a cursor, but not at the number of open levels. -/
structure Reading.Congruence where
  rel {α : Type} : Reading α → Reading α → Prop
  pure {α : Type} (a : α) : rel (Pure.pure a) (Pure.pure a)
  bind {α β : Type} {x y : Reading α} {f g : α → Reading β} :
    rel x y → (∀ a, rel (f a) (g a)) → rel (x >>= f) (y >>= g)
  look {α : Type} {f g : Cursor → Reading α} :
    (∀ c n, rel (f c) (g (c.atDepth n))) → rel (Reading.cursor >>= f) (Reading.cursor >>= g)
  advance : rel Reading.advance Reading.advance
  fail {α : Type} (cause : Failure.Cause) (position : Position) :
    rel (Reading.fail cause position : Reading α) (Reading.fail cause position)

namespace Reading

variable {α β : Type} {K : Congruence}

class Related (K : Congruence) (x y : Reading α) : Prop where
  rel : K.rel x y

namespace Related

variable {x y : Reading α} {f g : α → Reading β}

/-! ## Steps and sequences -/

instance pure (a : α) : Related K (Pure.pure a) (Pure.pure a) :=
  ⟨K.pure a⟩

instance bind [hx : Related K x y] [hf : ∀ a, Related K (f a) (g a)] : Related K (x >>= f) (y >>= g) :=
  ⟨K.bind hx.rel fun a => (hf a).rel⟩

/-- A sequence whose second part is chosen by cases. -/
theorem next [Related K x y] (h : ∀ a, Related K (f a) (g a)) : Related K (x >>= f) (y >>= g) :=
  bind

theorem look {f g : Cursor → Reading α} (h : ∀ c n, Related K (f c) (g (c.atDepth n))) :
    Related K (Reading.cursor >>= f) (Reading.cursor >>= g) :=
  ⟨K.look fun c n => (h c n).rel⟩

instance map {k : α → β} [Related K x y] : Related K (k <$> x) (k <$> y) := by
  rw [← bind_pure_comp, ← bind_pure_comp]
  infer_instance

instance ite {p : Prop} [Decidable p] {x' y' : Reading α} [Related K x y] [Related K x' y'] :
    Related K (if p then x else x') (if p then y else y') := by
  split <;> infer_instance

instance kind : Related K Reading.kind Reading.kind :=
  look fun c _ => pure c.kind

instance here : Related K Reading.here Reading.here :=
  look fun c _ => pure c.here

instance spanFrom (start : Position) : Related K (Reading.spanFrom start) (Reading.spanFrom start) :=
  look fun c _ => pure (c.spanFrom start)

instance advance : Related K Reading.advance Reading.advance :=
  ⟨K.advance⟩

instance fail (cause : Failure.Cause) (position : Position) :
    Related K (Reading.fail cause position : Reading α) (Reading.fail cause position) :=
  ⟨K.fail cause position⟩

instance unexpected (expected : String) :
    Related K (Reading.unexpected expected : Reading α) (Reading.unexpected expected) :=
  look fun c _ => fail (c.unexpected expected).cause (c.unexpected expected).position

instance tooDeep : Related K (Reading.tooDeep : Reading α) Reading.tooDeep :=
  look fun c _ => fail c.tooDeep.cause c.tooDeep.position

theorem expectAs_eq (kind : TokenKind) (expected : String) :
    Reading.expectAs kind expected = (Reading.kind >>= fun here =>
      if here = kind then Reading.advance else Reading.unexpected expected) := by
  funext c
  rw [kind_bind, Reading.expectAs]
  split <;> rfl

instance expectAs (kind : TokenKind) (expected : String) :
    Related K (Reading.expectAs kind expected) (Reading.expectAs kind expected) := by
  rw [expectAs_eq]
  infer_instance

instance expect (kind : TokenKind) : Related K (Reading.expect kind) (Reading.expect kind) :=
  expectAs kind _

theorem accept_eq (kind : TokenKind) :
    Reading.accept kind = (Reading.kind >>= fun here =>
      if here = kind then (fun _ => true) <$> Reading.advance else Pure.pure false) := by
  funext c
  rw [kind_bind, Reading.accept]
  split <;> rfl

instance accept (kind : TokenKind) : Related K (Reading.accept kind) (Reading.accept kind) := by
  rw [accept_eq]
  infer_instance

/-! ## Choice and repetition -/

theorem ifAt_eq (kind : TokenKind) (x : Reading α) :
    Reading.ifAt kind x = (Reading.kind >>= fun here =>
      if here = kind then some <$> x else Pure.pure none) := by
  funext c
  rw [kind_bind, Reading.ifAt]
  split <;> rfl

instance ifAt (kind : TokenKind) [Related K x y] : Related K (Reading.ifAt kind x) (Reading.ifAt kind y) := by
  rw [ifAt_eq, ifAt_eq]
  infer_instance

theorem repeatAt_eq (goesOn : TokenKind → Bool) (step : α → Reading α) (token : Token) (budget : List Token)
    (a : α) :
    Reading.repeatAt goesOn step (token :: budget) a = (Reading.kind >>= fun here =>
      if goesOn here then step a >>= Reading.repeatAt goesOn step budget else Pure.pure a) := by
  funext c
  change (if goesOn c.kind = true then _ else _) = _
  rw [kind_bind]
  split <;> rfl

section

variable {goesOn : TokenKind → Bool} {step step' : α → Reading α} [∀ a, Related K (step a) (step' a)]

instance repeatAt (budget : List Token) (a : α) :
    Related K (Reading.repeatAt goesOn step budget a) (Reading.repeatAt goesOn step' budget a) := by
  induction budget generalizing a with
  | nil => exact pure a
  | cons token budget ih =>
    rw [repeatAt_eq, repeatAt_eq]
    infer_instance

/-- A loop: its budget is the same wherever the place is the same. -/
instance whileAt (a : α) : Related K (Reading.whileAt goesOn step a) (Reading.whileAt goesOn step' a) :=
  look fun c _ => repeatAt c.ahead a

end

instance many {goesOn : TokenKind → Bool} [Related K x y] :
    Related K (Reading.many goesOn x) (Reading.many goesOn y) :=
  inferInstanceAs (Related K (List.reverse <$> Reading.whileAt goesOn _ [])
    (List.reverse <$> Reading.whileAt goesOn _ []))

end Related

end Reading

/-! ## Constructs -/

namespace Grammar

open Reading

variable {K : Congruence}

section

variable {α : Type} {item item' : Reading α} [Related K item item']

instance related_identifier : Related K identifier identifier :=
  .bind

instance related_separated : Related K (separated item) (separated item') :=
  .bind

instance related_commaList (close : TokenKind) : Related K (commaList close item) (commaList close item') := by
  unfold commaList
  infer_instance

instance related_parameters : Related K parameters parameters :=
  .bind

end

class Inner.Related (K : Congruence) (inner inner' : Inner) : Prop where
  expr (power : BindingPower) : Reading.Related K (inner.expr power) (inner'.expr power)
  block : Reading.Related K inner.block inner'.block

attribute [instance] Inner.Related.expr Inner.Related.block

instance related_literal : Related K literal literal := by
  refine .look fun c n => ?_
  simp only [Cursor.current_atDepth]
  split
  · split
    · infer_instance
    · exact Related.fail _ _
  all_goals infer_instance

section

variable (inner inner' : Inner) [Inner.Related K inner inner']

instance related_arguments : Related K (arguments inner) (arguments inner') :=
  .bind

instance related_link (start : Position) (object : Expr) :
    Related K (link inner start object) (link inner' start object) :=
  .bind

instance related_chain : Related K (chain inner) (chain inner') :=
  .bind

instance related_pair : Related K (pair inner) (pair inner') :=
  .bind

instance related_armBody : Related K (armBody inner) (armBody inner') := by
  refine .next fun kind => ?_
  split <;> infer_instance

instance related_arm : Related K (arm inner) (arm inner') :=
  .bind

instance related_operandOf (form : OperandForm) : Related K (operandOf inner form) (operandOf inner' form) := by
  cases form with
  | literal => exact related_literal
  | chain => exact related_chain inner inner'
  | list | map | signed | group | new | choice | lambda | function => exact .bind

instance related_operand : Related K (operand inner) (operand inner') := by
  refine .next fun kind => ?_
  split <;> infer_instance

instance related_operation (power : BindingPower) (left : Expr) :
    Related K (operation inner power left) (operation inner' power left) := by
  refine .next fun token => ?_
  split <;> infer_instance

instance related_infixOf (form : InfixForm) (power : BindingPower) (left : Expr) :
    Related K (infixOf inner form power left) (infixOf inner' form power left) := by
  cases form
  exact related_operation inner inner' power left

instance related_nextOperation (left : Expr) : Related K (nextOperation inner left) (nextOperation inner' left) := by
  refine .next fun kind => ?_
  split <;> infer_instance

instance related_operations (power : BindingPower) :
    Related K (operations inner power) (operations inner' power) :=
  .bind

instance related_chainStatement : Related K (chainStatement inner) (chainStatement inner') := by
  refine .next fun start => .next fun target => .next fun kind => ?_
  split
  · infer_instance
  · split <;> infer_instance

instance related_branch : Related K (branch inner) (branch inner') :=
  .bind

instance related_otherwise : Related K (otherwise inner) (otherwise inner') := by
  refine .look fun c n => .next fun _ => ?_
  rw [Cursor.peek_atDepth]
  split <;> infer_instance

instance related_function : Related K (function inner) (function inner') :=
  .bind

instance related_statementOf (form : StatementForm) :
    Related K (statementOf inner form) (statementOf inner' form) := by
  cases form <;> exact .bind

instance related_statement : Related K (statement inner) (statement inner') := by
  refine .next fun kind => ?_
  split
  · infer_instance
  · split <;> infer_instance

def insideBlock (inner : Inner) : Reading (Token × List Stmt) := do
  let token ← expect .openCurly
  let statements ← many insideBraces (statement inner)
  let _ ← expect .closeCurly
  pure (token, statements)

theorem block_eq (inner : Inner) :
    block inner = (do
      enter
      let inside ← insideBlock inner
      leave
      pure ⟨inside.2, ← spanFrom inside.1.span.start⟩) := by
  simp only [block, insideBlock, bind_assoc, pure_bind]

instance related_insideBlock : Related K (insideBlock inner) (insideBlock inner') :=
  .bind

/-- What stands behind the level of a block, whose contents have been read. -/
theorem related_behindBlock (read : Token × List Stmt) :
    Related K (spanFrom read.1.span.start >>= fun s => pure (⟨read.2, s⟩ : Block))
      (spanFrom read.1.span.start >>= fun s => pure ⟨read.2, s⟩) :=
  .bind

instance related_singleImport : Related K singleImport singleImport :=
  .bind

instance related_importList : Related K importList importList :=
  .bind

instance related_imports : Related K imports imports := by
  unfold imports
  infer_instance

instance related_traitNames : Related K traitNames traitNames :=
  .bind

instance related_traits? : Related K traits? traits? := by
  refine .look fun c n => ?_
  rw [Cursor.atWord_atDepth]
  infer_instance

instance related_method : Related K (method inner) (method inner') :=
  .bind

instance related_itemOf (form : ItemForm) : Related K (itemOf inner form) (itemOf inner' form) := by
  have htrait : Related K (trait inner) (trait inner') := .bind
  have htype : Related K (type inner) (type inner') := .bind
  have hunit : Related K (unit inner) (unit inner') := .bind
  cases form <;> exact .map

instance related_topLevelChain : Related K (topLevelChain inner) (topLevelChain inner') := by
  refine .look fun c n => ?_
  rw [Cursor.current_atDepth]
  infer_instance

instance related_topLevelStatement : Related K (topLevelStatement inner) (topLevelStatement inner') := by
  refine .next fun kind => ?_
  split <;> infer_instance

instance related_item : Related K (item inner) (item inner') := by
  refine .next fun kind => ?_
  split <;> infer_instance

instance related_reading (p : Production) : Related K (p.reading inner) (p.reading inner') := by
  cases p with
  | literal => exact @Related.map _ _ K _ _ _ (related_operandOf inner inner' .literal)
  | chain => exact @Related.map _ _ K _ _ _ (related_operandOf inner inner' .chain)
  | signed => exact @Related.map _ _ K _ _ _ (related_operandOf inner inner' .signed)
  | group => exact @Related.map _ _ K _ _ _ (related_operandOf inner inner' .group)
  | list => exact @Related.map _ _ K _ _ _ (related_operandOf inner inner' .list)
  | map => exact @Related.map _ _ K _ _ _ (related_operandOf inner inner' .map)
  | new => exact @Related.map _ _ K _ _ _ (related_operandOf inner inner' .new)
  | choice => exact @Related.map _ _ K _ _ _ (related_operandOf inner inner' .choice)
  | lambda => exact @Related.map _ _ K _ _ _ (related_operandOf inner inner' .lambda)
  | anonymousFunction => exact @Related.map _ _ K _ _ _ (related_operandOf inner inner' .function)
  | returnValue => exact @Related.map _ _ K _ _ _ (related_statementOf inner inner' .returnValue)
  | whileLoop => exact @Related.map _ _ K _ _ _ (related_statementOf inner inner' .whileLoop)
  | conditional => exact @Related.map _ _ K _ _ _ (related_statementOf inner inner' .conditional)
  | forLoop => exact @Related.map _ _ K _ _ _ (related_statementOf inner inner' .forLoop)
  | breakLoop => exact @Related.map _ _ K _ _ _ (related_statementOf inner inner' .breakLoop)
  | continueLoop => exact @Related.map _ _ K _ _ _ (related_statementOf inner inner' .continueLoop)
  | native => exact @Related.map _ _ K _ _ _ (related_statementOf inner inner' .native)
  | functionStatement => exact @Related.map _ _ K _ _ _ (related_statementOf inner inner' .function)
  | expr | operation | arguments | parameters | names | statement | chainStatement | block | function | imports
  | item | itemOf => exact .map

end

end Grammar

/-! ## Levels -/

/-- A congruence holds around a level if another one holds inside it. -/
structure Reading.Congruence.Encloses (outer inner : Congruence) : Prop where
  within {α : Type} {x y : Reading α} : inner.rel x y → outer.rel (Reading.within x) (Reading.within y)
  around {α β : Type} {x y : Reading α} {f g : α → Reading β} :
    inner.rel x y → (∀ a, outer.rel (f a) (g a)) →
      outer.rel (do Reading.enter; let a ← x; Reading.leave; f a) (do Reading.enter; let a ← y; Reading.leave; g a)

open Reading in
/-- A level of a grammar is an expression or a block around what is inside it. -/
theorem Grammar.related_level {outer inside : Congruence} (h : outer.Encloses inside)
    (inner inner' : Inner) [Inner.Related inside inner inner'] :
    Inner.Related outer ⟨expression inner, block inner⟩ ⟨expression inner', block inner'⟩ where
  expr power :=
    have hoperations : Related inside (operations inner power) (operations inner' power) := inferInstance
    ⟨h.within hoperations.rel⟩
  block := by
    have hinside : Related inside (insideBlock inner) (insideBlock inner') := inferInstance
    rw [block_eq, block_eq]
    exact ⟨h.around hinside.rel fun read => (related_behindBlock read).rel⟩

/-- A congruence holds between constructs at a cursor if it holds between them whatever expressions and blocks it
holds between inside them. -/
def Reading.Congruence.Ties (K : Congruence) : Prop :=
  ∀ ⦃α : Type⦄ ⦃construct : Inner → Reading α⦄,
    (∀ inner inner' : Inner, [Inner.Related K inner inner'] → K.rel (construct inner) (construct inner')) →
    K.rel (atCursor construct) (atCursor construct)

end WattFront
