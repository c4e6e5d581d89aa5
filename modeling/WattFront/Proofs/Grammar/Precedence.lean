import WattFront.Proofs.Grammar.Levels
import WattFront.Proofs.Grammar.StatementForms

/-! # Operators build the tree of their tiers

A sequence of operands with operators between them stands for one tree. `Reference` says which, by the
tiers of the operators alone: the last operator of the loosest tier is at the root, and what stands on
its two sides is put together in the same way. `expr_eq_reference` says that reading the sequence comes
to this tree, however long it is: an operand is nested at most seven levels deeper than the sequence,
since on the way down to a right operand the tiers get tighter.
-/

namespace WattFront

open Grammar Spelling

def BinaryOp.tier : BinaryOp → Nat
  | .and | .or => 1
  | .equals | .notEquals => 2
  | .greater | .less | .greaterEquals | .lessEquals => 3
  | .range => 4
  | .impls => 5
  | .plus | .minus => 6
  | .divide | .multiply | .modulo => 7

/-- The tree of a sequence of operands: the last of its loosest operators splits it. -/
inductive Reference : Expr → List (BinaryOp × Expr) → Expr → Prop
  | operand {first} : Reference first [] first
  | split {first before op operand after left right} (hbefore : ∀ o ∈ before, op.tier ≤ o.1.tier)
    (hafter : ∀ o ∈ after, op.tier < o.1.tier) (hleft : Reference first before left)
    (hright : Reference operand after right) :
    Reference first (before ++ (op, operand) :: after)
      (.binary op left right (left.span.through right.span))

namespace Reference

variable {first operand operand' e e' : Expr} {op op' : BinaryOp}
  {before before' after after' rest : List (BinaryOp × Expr)}

theorem exists_split (h : rest ≠ []) :
    ∃ before op operand after, rest = before ++ (op, operand) :: after
      ∧ (∀ o ∈ before, op.tier ≤ o.1.tier) ∧ ∀ o ∈ after, op.tier < o.1.tier := by
  induction rest with
  | nil => exact absurd rfl h
  | cons head tail ih =>
    obtain ⟨op, operand⟩ := head
    by_cases htail : tail = []
    · subst htail
      exact ⟨[], op, operand, [], rfl, by simp, by simp⟩
    obtain ⟨before, op', operand', after, rfl, hbefore, hafter⟩ := ih htail
    by_cases hle : op'.tier ≤ op.tier
    · refine ⟨(op, operand) :: before, op', operand', after, rfl, ?_, hafter⟩
      intro o member
      rcases List.mem_cons.1 member with rfl | member
      · exact hle
      · exact hbefore o member
    · refine ⟨[], op, operand, _, rfl, by simp, ?_⟩
      intro o member
      rcases List.mem_append.1 member with member | member
      · exact Nat.lt_of_lt_of_le (Nat.lt_of_not_le hle) (hbefore o member)
      · rcases List.mem_cons.1 member with rfl | member
        · exact Nat.lt_of_not_le hle
        · exact Nat.lt_trans (Nat.lt_of_not_le hle) (hafter o member)

/-- Two splits at the last of the loosest operators are the same. -/
theorem split_unique
    (hbefore : ∀ o ∈ before, op.tier ≤ o.1.tier) (hafter : ∀ o ∈ after, op.tier < o.1.tier)
    (hbefore' : ∀ o ∈ before', op'.tier ≤ o.1.tier) (hafter' : ∀ o ∈ after', op'.tier < o.1.tier)
    (heq : before ++ (op, operand) :: after = before' ++ (op', operand') :: after') :
    before = before' ∧ op = op' ∧ operand = operand' ∧ after = after' := by
  -- If one split is further to the right, its operator is both behind and in front of the other one.
  rcases List.append_eq_append_iff.1 heq with ⟨middle, rfl, hmiddle⟩ | ⟨middle, rfl, hmiddle⟩
  · cases middle with
    | nil =>
      cases hmiddle
      exact ⟨(List.append_nil _).symm, rfl, rfl, rfl⟩
    | cons head tail =>
      cases hmiddle
      have hle := hbefore' _ (List.mem_append_right before List.mem_cons_self)
      have hlt := hafter _ (List.mem_append_right tail List.mem_cons_self)
      exact absurd hle (Nat.not_le_of_lt hlt)
  · cases middle with
    | nil =>
      cases hmiddle
      exact ⟨List.append_nil _, rfl, rfl, rfl⟩
    | cons head tail =>
      cases hmiddle
      have hle := hbefore _ (List.mem_append_right before' List.mem_cons_self)
      have hlt := hafter' _ (List.mem_append_right tail List.mem_cons_self)
      exact absurd hle (Nat.not_le_of_lt hlt)

theorem unique (h : Reference first rest e) (h' : Reference first rest e') : e = e' := by
  induction h generalizing e' with
  | operand =>
    generalize hnil : [] = rest at h'
    cases h' with
    | operand => rfl
    | split => exact absurd hnil.symm (by simp)
  | split hbefore hafter _ _ ihleft ihright =>
    generalize hrest : _ ++ _ :: _ = rest at h'
    cases h' with
    | operand => exact absurd hrest (by simp)
    | split hbefore' hafter' hleft' hright' =>
      obtain ⟨rfl, rfl, rfl, rfl⟩ := split_unique hbefore hafter hbefore' hafter' hrest
      rw [ihleft hleft', ihright hright']

theorem exists_tree (first : Expr) (rest : List (BinaryOp × Expr)) : ∃ e, Reference first rest e := by
  by_cases hrest : rest = []
  · subst hrest
    exact ⟨first, .operand⟩
  obtain ⟨before, op, operand, after, heq, hbefore, hafter⟩ := exists_split hrest
  have hlength : rest.length = before.length + (after.length + 1) := by
    rw [heq, List.length_append, List.length_cons]
  obtain ⟨left, hleft⟩ := exists_tree first before
  obtain ⟨right, hright⟩ := exists_tree operand after
  rw [heq]
  exact ⟨_, .split hbefore hafter hleft hright⟩
termination_by rest.length

end Reference

/-! ## Operands -/

/-- The tokens of an operand, and the tree that they are read as. -/
structure Term where
  tokens : List Token
  tree : Expr

structure Operation where
  token : Token
  op : BinaryOp
  operand : Term

def Operation.tokens (o : Operation) : List Token :=
  o.token :: o.operand.tokens

def isSign (kind : TokenKind) : Bool :=
  kind = .dash || kind = .not

/-- The operands that end where they end, whatever follows: every operand but those whose last part is
an expression. -/
def opensClosed (kind : TokenKind) : Bool :=
  kind ∈ [.number, .string, .kwTrue, .kwFalse, .identifier, .openBracket, .openCurly, .kwNew, .kwFn,
    .openParen]

/-- Behind its signs, an operand starts like one that ends where it ends. -/
def Term.Closed (t : Term) : Prop :=
  ∃ token ∈ (t.tokens.dropWhile fun token => isSign token.kind).head?, opensClosed token.kind = true

/-- An operand alone is read as its tree from some depth, and nothing is left over. -/
def Term.ReadsAlone (t : Term) (file : String) (depth : Nat) : Prop :=
  ∃ c, atCursor (·.expr .unary) { Cursor.start t.tokens file with depth := depth } = .done t.tree c
    ∧ c.ahead = []

/-- Whether a token neither goes on with an operand nor stands between two of them. -/
def endsOperands (kind : TokenKind) : Bool :=
  BinaryOp.ofToken? kind = none ∧ kind ∉ [.dot, .openParen, .question]

theorem opensLink_of_binaryOp {kind : TokenKind} {op : BinaryOp} (h : BinaryOp.ofToken? kind = some op) :
    opensLink kind = false ∧ kind ≠ .question := by
  cases kind <;> cases h <;> exact ⟨rfl, by decide⟩

/-- The tier of an operator is how tightly it binds. -/
theorem BinaryOp.tier_eq_rank (op : BinaryOp) : op.bindingPower.rank = op.tier := by
  cases op <;> rfl

theorem BinaryOp.tier_le (op : BinaryOp) : op.tier ≤ 7 := by
  cases op <;> decide

theorem bindsTighter_iff {power : BindingPower} {kind : TokenKind} {op : BinaryOp}
    (h : BinaryOp.ofToken? kind = some op) : bindsTighter power kind = true ↔ power.rank < op.tier := by
  rw [bindsTighter, bindingPower_of_ofToken? h, decide_eq_true_iff, BinaryOp.tier_eq_rank]

theorem bindsTighter_eq_false {power : BindingPower} {kind : TokenKind}
    (h : BinaryOp.ofToken? kind = none) : bindsTighter power kind = false := by
  rw [bindsTighter, bindingPower_eq_lowest_iff.2 h, decide_eq_false_iff_not]
  exact Nat.not_lt_zero _

namespace Spelling

variable {inner : Inner} {tokens : List Token} {next next' : Token} {e : Expr} {levels : Nat}

/-- The operand of a sign takes no operator. -/
theorem operand_of_unary (h : (upTo levels).expr .unary tokens next e) :
    ∃ less, levels = less + 1 ∧ Operand (upTo less) tokens next e := by
  cases levels with
  | zero => exact h.elim
  | succ levels =>
    obtain ⟨hoperated, _⟩ := h
    cases hoperated with
    | operand hoperand => exact ⟨levels, rfl, hoperand⟩
    | binary _ htight hop _ =>
      have hrank := (bindsTighter_iff hop).1 htight
      exact absurd hrank (Nat.not_lt_of_le (Nat.le_succ_of_le (BinaryOp.tier_le _)))

theorem unary_of_operand (h : Operand (upTo levels) tokens next e) :
    (upTo (levels + 1)).expr .unary tokens next e := by
  refine .intro (.operand h) ?_
  rw [bindsTighter]
  cases next.kind <;> decide

theorem Bracketed.inFront {α : Type} {opening closing : TokenKind} {item : Form α} {as : List α}
    (h : Bracketed opening closing item tokens next as) : Bracketed opening closing item tokens next' as := by
  obtain ⟨hopen, hlist⟩ := h
  cases hlist with
  | nil hclose => exact .intro hopen (.nil hclose)
  | cons hitems hclose => exact .intro hopen (.cons hitems hclose)

/-- Links only look at what follows for the mark behind a call. -/
theorem Links.inFront (h : Links inner tokens next e) (hnext : next'.kind ≠ .question) :
    Links inner tokens next' e := by
  cases h with
  | name hkind => exact .name hkind
  | member hobject hdot hproperty => exact .member hobject hdot hproperty
  | call hcallee harguments _ =>
    obtain ⟨hopen, hlist⟩ := harguments
    exact .call hcallee (Bracketed.inFront ⟨hopen, hlist⟩) hnext
  | propagate hcallee harguments hmark =>
    obtain ⟨hopen, hlist⟩ := harguments
    exact .propagate hcallee ⟨hopen, hlist⟩ hmark

theorem block_inFront {b : Block} (h : (upTo levels).block tokens next b) :
    (upTo levels).block tokens next' b := by
  cases levels with
  | zero => exact h.elim
  | succ levels =>
    obtain ⟨hfirst, hstatements, hclose⟩ := h
    exact .intro hfirst hstatements hclose

/-- An operand that ends where it ends may stand in front of any token that does not go on with it. -/
theorem Operand.inFront (h : Operand (upTo levels) tokens next e)
    (hclosed : ∃ token ∈ (tokens.dropWhile fun token => isSign token.kind).head?,
      opensClosed token.kind = true)
    (hlink : opensLink next'.kind = false) (hmark : next'.kind ≠ .question) :
    Operand (upTo levels) tokens next' e := by
  induction levels using Nat.strongRecOn generalizing tokens next e with
  | ind levels ih =>
    have hsigned {first : Token} {others : List Token} {operand : Expr}
        (hclosed : ∃ token ∈ ((first :: others).dropWhile fun token => isSign token.kind).head?,
          opensClosed token.kind = true)
        (hsign : isSign first.kind = true) (hoperand : (upTo levels).expr .unary others next operand) :
        (upTo levels).expr .unary others next' operand := by
      obtain ⟨less, rfl, hinner⟩ := operand_of_unary hoperand
      simp only [List.dropWhile_cons, hsign, if_true] at hclosed
      exact unary_of_operand (ih less (Nat.lt_succ_self less) hinner hclosed)
    cases h with
    | literal hliteral =>
      refine .literal ?_
      cases hliteral with
      | number hkind hvalue => exact .number hkind hvalue
      | string hkind => exact .string hkind
      | true hkind => exact .true hkind
      | false hkind => exact .false hkind
    | chain hchain =>
      obtain ⟨hlinks, _⟩ := hchain
      exact .chain (.intro (hlinks.inFront hmark) hlink)
    | list helements => exact .list helements.inFront
    | map hpairs => exact .map hpairs.inFront
    | negate hfirst hoperand =>
      exact .negate hfirst (hsigned hclosed (by simp [isSign, hfirst]) hoperand)
    | not hfirst hoperand => exact .not hfirst (hsigned hclosed (by simp [isSign, hfirst]) hoperand)
    | group hfirst hexpr hclose => exact .group hfirst hexpr hclose
    | new hfirst hname harguments => exact .new hfirst hname harguments.inFront
    | choice hfirst | lambda hfirst =>
      rw [List.dropWhile_cons_of_neg (by simp [isSign, hfirst])] at hclosed
      obtain ⟨token, hhead, hkind⟩ := hclosed
      cases hhead
      rw [hfirst] at hkind
      cases hkind
    | function hfirst hparameters hbody =>
      exact .function hfirst hparameters.inFront (block_inFront hbody)

end Spelling

def Term.Spells (t : Term) (levels : Nat) : Prop :=
  t.Closed ∧ ∃ next, Operand (upTo levels) t.tokens next t.tree

/-- The tree of a sequence of operands is spelled by the sequence, at every power that all of its operators
bind tighter than, in front of a token that none of them leaves to its right operand. Each right operand
takes a level, and its operators have tighter tiers. -/
theorem operated_of_reference {first : Term} {rest : List Operation} {power : BindingPower}
    {next : Token} {e : Expr} {levels more : Nat}
    (href : Reference first.tree (rest.map fun o => (o.op, o.operand.tree)) e)
    (hfirst : first.Spells levels)
    (hrest : ∀ o ∈ rest, BinaryOp.ofToken? o.token.kind = some o.op ∧ o.operand.Spells levels)
    (htight : ∀ o ∈ rest, power.rank < o.op.tier) (hlevels : levels ≤ more)
    (hmore : levels + 7 ≤ more + power.rank)
    (hnext : opensLink next.kind = false ∧ next.kind ≠ .question)
    (hloose : ∀ o ∈ rest, bindsTighter o.op.bindingPower next.kind = false) :
    Operated (upTo more) power (first.tokens ++ rest.flatMap Operation.tokens) next e := by
  -- The induction splits the sequence at the last of its loosest operators, where the root of the tree is.
  generalize htree : first.tree = tree at href
  generalize hpairs : rest.map (fun o => (o.op, o.operand.tree)) = pairs at href
  induction href generalizing first rest power more next with
  | operand =>
    rw [List.map_eq_nil_iff] at hpairs
    subst hpairs htree
    obtain ⟨hclosed, _, hoperand⟩ := hfirst
    rw [List.flatMap_nil, List.append_nil]
    have hmono := Operand.mono (upTo_mono hlevels) _ _ _ hoperand
    exact .operand (hmono.inFront hclosed hnext.1 hnext.2)
  | split hbefore hafter _ _ ihleft ihright =>
    obtain ⟨before, middle, rfl, rfl, hmiddle⟩ := List.map_eq_append_iff.1 hpairs
    obtain ⟨o, after, rfl, ho, rfl⟩ := List.map_eq_cons_iff.1 hmiddle
    cases ho
    subst htree
    have hmember : o ∈ before ++ o :: after := List.mem_append_right before List.mem_cons_self
    have hleft {x : Operation} (member : x ∈ before) : x ∈ before ++ o :: after :=
      List.mem_append_left _ member
    have hright {x : Operation} (member : x ∈ after) : x ∈ before ++ o :: after :=
      List.mem_append_right before (List.mem_cons_of_mem o member)
    obtain ⟨hop, hoperand⟩ := hrest o hmember
    have htier := htight o hmember
    have hseven := BinaryOp.tier_le o.op
    have htokens : first.tokens ++ (before ++ o :: after).flatMap Operation.tokens =
        (first.tokens ++ before.flatMap Operation.tokens)
          ++ o.token :: (o.operand.tokens ++ after.flatMap Operation.tokens) := by
      simp [Operation.tokens]
    rw [htokens]
    refine .binary ?_ ((bindsTighter_iff hop).2 htier) hop ?_
    · refine ihleft hfirst (fun x member => hrest x (hleft member))
        (fun x member => htight x (hleft member)) hlevels hmore (opensLink_of_binaryOp hop) ?_ rfl rfl
      intro x member
      have hle := hbefore _ (List.mem_map_of_mem member)
      rw [← Bool.not_eq_true, bindsTighter_iff hop, BinaryOp.tier_eq_rank]
      exact Nat.not_lt_of_le hle
    · obtain ⟨less, rfl⟩ : ∃ less, more = less + 1 := ⟨more - 1, by omega⟩
      refine .intro (ihright hoperand (fun x member => hrest x (hright member)) ?_ (by omega) ?_ hnext
        (fun x member => hloose x (hright member)) rfl rfl) (hloose o hmember)
      · intro x member
        rw [BinaryOp.tier_eq_rank]
        exact hafter _ (List.mem_map_of_mem member)
      · rw [BinaryOp.tier_eq_rank]
        omega

/-! ## Reading a sequence of operands -/

/-- An operand that is read alone is spelled with the levels that are left behind its own. -/
theorem Term.ReadsAlone.operand {t : Term} {file : String} {depth : Nat} (h : t.ReadsAlone file depth) :
    depth < maxNesting ∧ (∃ next, Operand (upTo (maxNesting - depth - 1)) t.tokens next t.tree)
      ∧ ∀ token ∈ t.tokens, token.kind ≠ .endOfInput := by
  obtain ⟨d, hdone, hover⟩ := h
  generalize hc : { Cursor.start t.tokens file with depth := depth } = c at hdone
  have hdepth : c.depth = depth := by rw [← hc]
  have hahead : c.ahead = t.tokens := by rw [← hc, Cursor.start]
  rw [atCursor, Cursor.room, hdepth] at hdone
  by_cases hroom : depth ≤ maxNesting
  · have hlevels : c.depth + (maxNesting - depth) ≤ maxNesting := by omega
    have hspells := (nested_spells (maxNesting - depth)).expr .unary trivial hlevels t.tree d
    obtain ⟨tokens, hpass, hform⟩ := hspells.1 hdone
    have htokens : t.tokens = tokens := by
      rw [← hahead, hpass.ahead, hover, List.append_nil]
    obtain ⟨less, hless, hoperand⟩ := operand_of_unary hform
    have hpred : maxNesting - depth - 1 = less := by omega
    rw [htokens, hpred]
    exact ⟨by omega, ⟨_, hoperand⟩, hpass.inside⟩
  · rw [Nat.sub_eq_zero_of_le (Nat.le_of_not_le hroom)] at hdone
    cases hdone

theorem operations_inside {first : Term} {rest : List Operation}
    (hfirst : ∀ token ∈ first.tokens, token.kind ≠ .endOfInput)
    (hrest : ∀ o ∈ rest, BinaryOp.ofToken? o.token.kind = some o.op
      ∧ ∀ token ∈ o.operand.tokens, token.kind ≠ .endOfInput) :
    ∀ token ∈ first.tokens ++ rest.flatMap Operation.tokens, token.kind ≠ .endOfInput := by
  intro token member
  rw [List.mem_append, List.mem_flatMap] at member
  rcases member with member | ⟨o, ho, member⟩
  · exact hfirst token member
  · obtain ⟨hop, hoperand⟩ := hrest o ho
    rcases List.mem_cons.1 member with rfl | member
    · intro hend
      rw [hend] at hop
      cases hop
    · exact hoperand token member

/-- A token that ends the operands is no operator, opens no link and marks no call. -/
theorem loose_of_endsOperands {kind : TokenKind} (h : endsOperands kind = true) :
    BinaryOp.ofToken? kind = none ∧ opensLink kind = false ∧ kind ≠ .question := by
  rw [endsOperands, decide_eq_true_iff] at h
  obtain ⟨hnone, hother⟩ := h
  simp only [List.mem_cons, List.not_mem_nil, or_false, not_or] at hother
  exact ⟨hnone, by simp [opensLink, hother], hother.2.2⟩

/-- Operands with operators between them are read as the reference tree of the sequence, and nothing
behind the last operand is consumed. -/
theorem expr_eq_reference {c : Cursor} {first : Term} {rest : List Operation} {more : List Token}
    (hfirst : first.Closed ∧ first.ReadsAlone c.file (c.depth + 7))
    (hrest : ∀ o ∈ rest, BinaryOp.ofToken? o.token.kind = some o.op ∧ o.operand.Closed
      ∧ o.operand.ReadsAlone c.file (c.depth + 7))
    (hahead : c.ahead = first.tokens ++ rest.flatMap Operation.tokens ++ more)
    (hnext : endsOperands (more.headD (.endOfInput c.ending)).kind = true) :
    ∃ tree, (∀ other, Reference first.tree (rest.map fun o => (o.op, o.operand.tree)) other ↔ other = tree)
      ∧ atCursor (·.expr .lowest) c = .done tree
        { c with behind := (first.tokens ++ rest.flatMap Operation.tokens).reverse ++ c.behind
                 ahead := more } := by
  obtain ⟨tree, htree⟩ :=
    Reference.exists_tree first.tree (rest.map fun o => (o.op, o.operand.tree))
  refine ⟨tree, fun other => ⟨fun h => h.unique htree, fun h => h ▸ htree⟩, ?_⟩
  generalize htokens : first.tokens ++ rest.flatMap Operation.tokens = tokens at hahead
  generalize hd : ({ c with behind := tokens.reverse ++ c.behind, ahead := more } : Cursor) = d
  obtain ⟨hclosed, halone⟩ := hfirst
  obtain ⟨hdepth, hoperand, hinside⟩ := halone.operand
  have hoperations : ∀ o ∈ rest, BinaryOp.ofToken? o.token.kind = some o.op
      ∧ o.operand.Spells (maxNesting - (c.depth + 7) - 1) := by
    intro o member
    obtain ⟨hop, hclosed, halone⟩ := hrest o member
    exact ⟨hop, hclosed, halone.operand.2.1⟩
  have hpass : c.Passes tokens d := by
    refine ⟨by rw [← hd, hahead], by rw [← hd], ?_, by rw [← hd], by rw [← hd], by rw [← hd]⟩
    rw [← htokens]
    exact operations_inside hinside fun o ho => ⟨(hrest o ho).1, (hrest o ho).2.2.operand.2.2⟩
  have hcurrent : d.current = more.headD (.endOfInput c.ending) := by rw [← hd, Cursor.current]
  rw [← hcurrent] at hnext
  obtain ⟨hnone, hlink⟩ := loose_of_endsOperands hnext
  -- Seven levels are left for the operators, one for each of their tiers.
  have hoperated : Operated (upTo (maxNesting - c.depth - 1)) .lowest tokens d.current tree := by
    rw [← htokens]
    refine operated_of_reference htree ⟨hclosed, hoperand⟩ hoperations ?_ (by omega) ?_ hlink ?_
    · intro o _
      cases o.op <;> decide
    · rw [BindingPower.rank]
      omega
    · intro o _
      exact bindsTighter_eq_false hnone
  have hroom : c.room = maxNesting - c.depth - 1 + 1 := by
    rw [Cursor.room]
    omega
  rw [atCursor, hroom]
  have hlevels : c.depth + (maxNesting - c.depth - 1 + 1) ≤ maxNesting := by omega
  exact ((nested_spells _).expr .lowest trivial hlevels tree d).2
    ⟨tokens, hpass, .intro hoperated (bindsTighter_eq_false hnone)⟩

theorem expr_eq_reference_of_three :
    ∃ tree, (∀ other, Reference (.unary .negate (.number 1 default) default)
        [(.minus, .number 2 default), (.minus, .number 3 default)] other ↔ other = tree)
      ∧ atCursor (·.expr .lowest) (Cursor.start [⟨.dash, "-", default⟩, ⟨.number, "1", default⟩,
          ⟨.dash, "-", default⟩, ⟨.number, "2", default⟩, ⟨.dash, "-", default⟩,
          ⟨.number, "3", default⟩] "") =
        .done tree ⟨[⟨.number, "3", default⟩, ⟨.dash, "-", default⟩, ⟨.number, "2", default⟩,
          ⟨.dash, "-", default⟩, ⟨.number, "1", default⟩, ⟨.dash, "-", default⟩], [], default, "", 0⟩ := by
  have hfirst : Term.ReadsAlone ⟨[⟨.dash, "-", default⟩, ⟨.number, "1", default⟩],
      .unary .negate (.number 1 default) default⟩ "" 7 :=
    ⟨⟨[⟨.number, "1", default⟩, ⟨.dash, "-", default⟩], [], default, "", 7⟩, rfl, rfl⟩
  have hsecond : Term.ReadsAlone ⟨[⟨.number, "2", default⟩], .number 2 default⟩ "" 7 :=
    ⟨⟨[⟨.number, "2", default⟩], [], default, "", 7⟩, rfl, rfl⟩
  have hthird : Term.ReadsAlone ⟨[⟨.number, "3", default⟩], .number 3 default⟩ "" 7 :=
    ⟨⟨[⟨.number, "3", default⟩], [], default, "", 7⟩, rfl, rfl⟩
  refine @expr_eq_reference (Cursor.start _ "") _
    [⟨⟨.dash, "-", default⟩, .minus, ⟨[⟨.number, "2", default⟩], .number 2 default⟩⟩,
      ⟨⟨.dash, "-", default⟩, .minus, ⟨[⟨.number, "3", default⟩], .number 3 default⟩⟩]
    [] ⟨⟨_, rfl, rfl⟩, hfirst⟩ ?_ rfl rfl
  intro o member
  rcases List.mem_cons.1 member with rfl | member
  · exact ⟨rfl, ⟨_, rfl, rfl⟩, hsecond⟩
  · rw [List.mem_singleton.1 member]
    exact ⟨rfl, ⟨_, rfl, rfl⟩, hthird⟩

end WattFront
