import WattFront.Proofs.Grammar.Passing
import WattFront.Token.Numeral
import WattFront.Tree.Outline

/-! # Outlines laid over tokens

An outline *covers* the tokens from the first to the last one of its span. Its children cover parts of these,
one after the other, and a node that stands for the text of a token says what that token says.

* `Outline.Covers`, `Outline.Laid` — an outline, and outlines in a row, over some tokens;
* `Outline.Laid.append`, `Outline.Covers.within` — tokens that are put together;
* `Outline.covers_node`, `Outline.covers_token`, `Outline.covers_only`, `Outline.covers_through` — the spans that
  nodes have;
* `Expr.outlines_eq` and the like — the outlines of a list are those of its members.
-/

namespace WattFront

/-- The kinds of labels that stand for the text of one token. -/
@[simp]
def Label.textKinds : List String :=
  ["ident", "symbol", "number", "bool", "string"]

/-- What a label says about a text is said by its only token. -/
structure Label.SaidBy (label : Label) (core : List Token) : Prop where
  name : label.kind = "ident" ∨ label.kind = "symbol" →
    ∃ token, core = [token] ∧ token.kind = .identifier ∧ label.detail = .text token.value
  number : label.kind = "number" →
    ∃ token value, core = [token] ∧ token.kind = .number
      ∧ Numeral.value? token.value.toList = some value ∧ label.detail = .text (toString value)
  bool : label.kind = "bool" →
    ∃ token value, core = [token] ∧ token.kind = (if value then .kwTrue else .kwFalse)
      ∧ label.detail = .flag value
  string : label.kind = "string" →
    ∃ token, core = [token] ∧ token.kind = .string ∧ label.detail = .text token.value

/-- A label that does not stand for the text of a token says nothing about one. -/
theorem Label.saidBy_of_notMem {label : Label} (h : label.kind ∉ textKinds) (core : List Token) :
    label.SaidBy core := by
  simp only [textKinds, List.mem_cons, List.not_mem_nil, not_or, or_false] at h
  obtain ⟨hident, hsymbol, hnumber, hbool, hstring⟩ := h
  exact ⟨fun hkind => (hkind.elim hident hsymbol).elim, fun hkind => (hnumber hkind).elim,
    fun hkind => (hbool hkind).elim, fun hkind => (hstring hkind).elim⟩

def Outline.label : Outline → Label
  | .node label _ => label

mutual

/-- An outline covers some tokens, perhaps with other ones around them, such as parentheses. -/
inductive Outline.Covers : List Token → Outline → Prop
  | node {lead core tail label children} (hne : core ≠ []) (hspan : label.span = .cover core)
    (hsaid : label.SaidBy core) (hchildren : Outline.Laid core children) :
    Outline.Covers (lead ++ (core ++ tail)) (.node label children)

inductive Outline.Laid : List Token → List Outline → Prop
  | nil {tokens} : Outline.Laid tokens []
  | cons {front back o os} (hfirst : Outline.Covers front o) (hrest : Outline.Laid back os) :
    Outline.Laid (front ++ back) (o :: os)

end

/-- The spans of two lists of tokens reach over what stands between them. -/
theorem Span.through_cover {core core' : List Token} (hne : core ≠ []) (hne' : core' ≠ [])
    (between : List Token) :
    (cover core).through (cover core') = cover (core ++ (between ++ core')) := by
  obtain ⟨first, others, rfl⟩ := List.exists_cons_of_ne_nil hne
  obtain ⟨before, last, rfl⟩ := List.eq_nil_or_concat core' |>.resolve_left hne'
  obtain ⟨first', others', hcons⟩ := List.exists_cons_of_ne_nil hne'
  have hlast : others'.getLastD first' = last := by
    have := congrArg List.getLast? hcons
    simpa [List.getLast?_cons] using this.symm
  rw [hcons, cover_cons, cover_cons, List.cons_append, cover_cons, hlast, ← hcons]
  simp [Span.through]

namespace Outline

variable {label : Label} {children os os' : List Outline} {o o' : Outline} {tokens others core : List Token}

/-- A node over the tokens of its span alone. -/
theorem covers_self (hne : core ≠ []) (hspan : label.span = .cover core) (hsaid : label.SaidBy core)
    (hchildren : Laid core children) : Covers core (node label children) := by
  have hcovers : Covers ([] ++ (core ++ [])) (node label children) := .node hne hspan hsaid hchildren
  rwa [List.nil_append, List.append_nil] at hcovers

namespace Covers

/-- The tokens from the first to the last one of a span. -/
theorem exists_core (h : Covers tokens o) :
    ∃ lead core tail, tokens = lead ++ (core ++ tail) ∧ core ≠ [] ∧ o.label.span = .cover core
      ∧ Covers core o := by
  obtain @⟨lead, core, tail, label, children, hne, hspan, hsaid, hchildren⟩ := h
  exact ⟨lead, core, tail, rfl, hne, hspan, covers_self hne hspan hsaid hchildren⟩

theorem ne_nil (h : Covers tokens o) : tokens ≠ [] := by
  obtain ⟨hne⟩ := h
  simp [hne]

/-- More tokens may stand around those that an outline covers. -/
theorem within (h : Covers tokens o) (lead tail : List Token) : Covers (lead ++ (tokens ++ tail)) o := by
  obtain @⟨before, core, after, label, children, hne, hspan, hsaid, hchildren⟩ := h
  have hcovers : Covers ((lead ++ before) ++ (core ++ (after ++ tail))) (.node label children) :=
    .node hne hspan hsaid hchildren
  simpa using hcovers

theorem append_left (h : Covers tokens o) (lead : List Token) : Covers (lead ++ tokens) o := by
  simpa using h.within lead []

theorem append_right (h : Covers tokens o) (tail : List Token) : Covers (tokens ++ tail) o := by
  simpa using h.within [] tail

theorem laid (h : Covers tokens o) : Laid tokens [o] := by
  have hlaid : Laid (tokens ++ []) [o] := .cons h .nil
  rwa [List.append_nil] at hlaid

end Covers

namespace Laid

theorem append_left (h : Laid tokens os) (lead : List Token) : Laid (lead ++ tokens) os := by
  cases h with
  | nil => exact .nil
  | cons hfirst hrest =>
    rw [← List.append_assoc]
    exact .cons (hfirst.append_left lead) hrest

/-- Outlines in a row, and behind them others over the tokens behind theirs. -/
theorem append (h : Laid tokens os) (h' : Laid others os') : Laid (tokens ++ others) (os ++ os') := by
  induction os generalizing tokens with
  | nil => exact h'.append_left tokens
  | cons o os ih =>
    obtain _ | ⟨hfirst, hrest⟩ := h
    rw [List.append_assoc]
    exact .cons hfirst (ih hrest)

theorem append_right (h : Laid tokens os) (tail : List Token) : Laid (tokens ++ tail) os := by
  have hlaid : Laid (tokens ++ tail) (os ++ []) := h.append .nil
  rwa [List.append_nil] at hlaid

/-- One more token in front, such as a keyword. -/
theorem behind (h : Laid tokens os) (token : Token) : Laid (token :: tokens) os :=
  h.append_left [token]

end Laid

/-! ## The spans of nodes -/

/-- A node whose span is that of its tokens. -/
theorem covers_node (hne : core ≠ []) (hspan : label.span = .cover core) (hkind : label.kind ∉ Label.textKinds)
    (hchildren : Laid core children) : Covers core (node label children) :=
  covers_self hne hspan (Label.saidBy_of_notMem hkind core) hchildren

/-- A node that is opened by a token of its own. -/
theorem covers_behind {first : Token} (hspan : label.span = .cover (first :: tokens))
    (hkind : label.kind ∉ Label.textKinds) (hchildren : Laid tokens children) :
    Covers (first :: tokens) (node label children) :=
  covers_node (List.cons_ne_nil _ _) hspan hkind (hchildren.behind first)

/-- A node that stands for the text of its only token. -/
theorem covers_token {token : Token} (hspan : label.span = token.span) (hsaid : label.SaidBy [token]) :
    Covers [token] (node label []) :=
  covers_self (List.cons_ne_nil _ _) hspan hsaid .nil

/-- A node with the span of its only child. -/
theorem covers_only (h : Covers tokens o) (hspan : label.span = o.label.span)
    (hkind : label.kind ∉ Label.textKinds) : Covers tokens (node label [o]) := by
  obtain ⟨lead, core, tail, rfl, hne, hcore, hcovers⟩ := h.exists_core
  exact (covers_node hne (hspan.trans hcore) hkind hcovers.laid).within lead tail

/-- A node whose span reaches from its left child through its right one. -/
theorem covers_through (h : Covers tokens o) (h' : Covers others o') (token : Token)
    (hspan : label.span = o.label.span.through o'.label.span) (hkind : label.kind ∉ Label.textKinds) :
    Covers (tokens ++ token :: others) (node label [o, o']) := by
  obtain ⟨lead, core, tail, rfl, hne, hcore, hcovers⟩ := h.exists_core
  obtain ⟨lead', core', tail', rfl, hne', hcore', hcovers'⟩ := h'.exists_core
  have hnode : Covers (core ++ ((tail ++ token :: lead') ++ core')) (node label [o, o']) := by
    refine covers_node (by simp [hne]) ?_ hkind ?_
    · rw [hspan, hcore, hcore', Span.through_cover hne hne']
    · exact .cons hcovers (hcovers'.laid.append_left _)
  simpa using hnode.within lead tail'

end Outline

/-! ## Outlines of lists -/

theorem Expr.outlines_eq (role : String) (es : List Expr) :
    Expr.outlines role es = es.map (Expr.outline role) := by
  induction es with
  | nil => rfl
  | cons e es ih => rw [Expr.outlines, ih, List.map_cons]

theorem Pair.outlines_eq (ps : List Pair) : Pair.outlines ps = ps.map Pair.outline := by
  induction ps with
  | nil => rfl
  | cons p ps ih => rw [Pair.outlines, ih, List.map_cons]

theorem Arm.outlines_eq (arms : List Arm) : Arm.outlines arms = arms.map (Arm.outline "case") := by
  induction arms with
  | nil => rfl
  | cons a arms ih => rw [Arm.outlines, ih, List.map_cons]

theorem Stmt.outlines_eq (ss : List Stmt) : Stmt.outlines ss = ss.map (Stmt.outline "stmt") := by
  induction ss with
  | nil => rfl
  | cons s ss ih => rw [Stmt.outlines, ih, List.map_cons]

theorem Branch.outlines_eq (bs : List Branch) : Branch.outlines bs = bs.map Branch.outline := by
  induction bs with
  | nil => rfl
  | cons b bs ih => rw [Branch.outlines, ih, List.map_cons]

/-- The span of an expression is that of its outline. -/
theorem Expr.span_outline (role : String) (e : Expr) : (e.outline role).label.span = e.span := by
  cases e <;> rfl

theorem Function.span_outline (role : String) (f : Function) : (f.outline role).label.span = f.span := by
  cases f
  rfl

end WattFront
