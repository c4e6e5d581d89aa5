import WattFront.Proofs.Grammar.Laying
import WattFront.Proofs.Token.Standing
import WattFront.Tree.Equality

/-! # Spans and the text under them

Every node of a program that was read from a text is *placed* in the text: its span is not empty and reaches
from the start of a token to the stop of one, its children lie inside it, one behind the other, and where it
stands for the text of a token, that text is found under its span.

* `Label.Placed`, `Outline.All` — what holds of one node, and of all of them;
* `Outline.Covers.placed` — outlines over tokens that stand in a text are placed in it;
* `Program.ofSource_placed` — the result for programs.
-/

namespace WattFront

/-- Some nodes lie inside another one, one behind the other. -/
structure Label.Encloses (label : Label) (children : List Label) : Prop where
  inside : ∀ child ∈ children, child.span.within label.span
  apart : children.Pairwise fun child other => child.span.before other.span

/-- A node lies in a source at its tokens, and its children lie inside it. Where it stands for the text of a
token, this text is found under its span. -/
structure Label.Placed (source : List Char) (file : String) (tokens : List Token) (label : Label)
    (children : List Label) : Prop extends label.Encloses children where
  file : label.span.start.file = file ∧ label.span.stop.file = file
  filled : label.span.filled
  starts : ∃ token ∈ tokens, token.kind ≠ .endOfInput ∧ label.span.start = token.span.start
  stops : ∃ token ∈ tokens, token.kind ≠ .endOfInput ∧ label.span.stop = token.span.stop
  name : label.kind = "ident" ∨ label.kind = "symbol" →
    ∃ name, label.detail = .text name ∧ label.span.Cuts source name.toList
  number : label.kind = "number" →
    ∃ digits, label.detail = .text (toString (Numeral.toNat digits : Int)) ∧ label.span.Cuts source digits
      ∧ digits ≠ [] ∧ ∀ c ∈ digits, c.isDigit = true
  bool : label.kind = "bool" →
    ∃ value, label.detail = .flag value
      ∧ label.span.Cuts source (if value then TokenKind.kwTrue else .kwFalse).lexeme.toList
  string : label.kind = "string" →
    ∃ value body, label.detail = .text value ∧ label.span.Cuts source ('\x27' :: (body ++ ['\x27']))
      ∧ StringBody body value.toList

/-- What holds of the label of every node with the labels of its children. -/
inductive Outline.All (holds : Label → List Label → Prop) : Outline → Prop
  | node {label children} (hnode : holds label (children.map Outline.label))
    (hchildren : ∀ child ∈ children, Outline.All holds child) : Outline.All holds (.node label children)

variable {source : List Char} {file : String} {tokens core : List Token} {label : Label} {o : Outline}
  {os children : List Outline}

/-! ## The text under a node -/

/-- A number that has been read is that of its digits. -/
theorem Numeral.value?_eq {digits : List Char} {value : Int} (hvalue : value? digits = some value)
    (hne : digits ≠ []) (hdigits : ∀ c ∈ digits, c.isDigit = true) : value = (toNat digits : Int) := by
  obtain ⟨c, cs, rfl⟩ := List.exists_cons_of_ne_nil hne
  rw [value?_of_digits hdigits] at hvalue
  split at hvalue
  · exact (Option.some.inj hvalue).symm
  · cases hvalue

namespace Label.SaidBy

variable (h : label.SaidBy core) (hspan : label.span = .cover core)
  (hstands : ∀ token ∈ core, token.StandsIn source file) (hsize : byteLength source < 2 ^ 32)

include h hspan hstands hsize

theorem name_cuts (hkind : label.kind = "ident" ∨ label.kind = "symbol") :
    ∃ name, label.detail = .text name ∧ label.span.Cuts source name.toList := by
  obtain ⟨token, rfl, hidentifier, hdetail⟩ := h.name hkind
  obtain ⟨text, back, helement, hcuts⟩ := (hstands token List.mem_cons_self).exists_cuts hsize
  have htext := helement.text_eq
  rw [hidentifier, if_neg nofun] at htext
  rw [htext.1] at hcuts
  exact ⟨token.value, hdetail, hspan ▸ hcuts⟩

theorem number_cuts (hkind : label.kind = "number") :
    ∃ digits, label.detail = .text (toString (Numeral.toNat digits : Int)) ∧ label.span.Cuts source digits
      ∧ digits ≠ [] ∧ ∀ c ∈ digits, c.isDigit = true := by
  obtain ⟨token, value, rfl, hnumber, hvalue, hdetail⟩ := h.number hkind
  obtain ⟨text, back, helement, hcuts⟩ := (hstands token List.mem_cons_self).exists_cuts hsize
  have htext := helement.text_eq
  rw [if_neg (by rw [hnumber]; exact nofun)] at htext
  obtain ⟨rfl, hrun⟩ := htext
  obtain ⟨hne, hdigits, -⟩ := hrun hnumber
  rw [Numeral.value?_eq hvalue hne hdigits] at hdetail
  exact ⟨_, hdetail, hspan ▸ hcuts, hne, hdigits⟩

theorem bool_cuts (hkind : label.kind = "bool") :
    ∃ value, label.detail = .flag value
      ∧ label.span.Cuts source (if value then TokenKind.kwTrue else .kwFalse).lexeme.toList := by
  obtain ⟨token, value, rfl, hkeyword, hdetail⟩ := h.bool hkind
  obtain ⟨text, back, helement, hcuts⟩ := (hstands token List.mem_cons_self).exists_cuts hsize
  have hmember : token.kind ∈ TokenKind.keywords := by
    rw [hkeyword]
    cases value <;> decide
  have htext := helement.text_eq
  rw [if_neg (by rw [hkeyword]; cases value <;> exact nofun), helement.value_of_keyword hmember, hkeyword] at htext
  rw [htext.1] at hcuts
  exact ⟨value, hdetail, hspan ▸ hcuts⟩

theorem string_cuts (hkind : label.kind = "string") :
    ∃ value body, label.detail = .text value ∧ label.span.Cuts source ('\x27' :: (body ++ ['\x27']))
      ∧ StringBody body value.toList := by
  obtain ⟨token, rfl, hstring, hdetail⟩ := h.string hkind
  obtain ⟨text, back, helement, hcuts⟩ := (hstands token List.mem_cons_self).exists_cuts hsize
  have htext := helement.text_eq
  rw [if_pos hstring] at htext
  obtain ⟨body, rfl, hbody⟩ := htext
  exact ⟨token.value, body, hdetail, hspan ▸ hcuts, hbody⟩

end Label.SaidBy

/-! ## Outlines over tokens in order -/

namespace Outline

/-- The span of an outline reaches from the start of one of its tokens to the stop of another. -/
theorem Covers.span_eq (h : Covers tokens o) (horder : InOrder tokens) :
    ∃ first ∈ tokens, ∃ last ∈ tokens, o.label.span = ⟨first.span.start, last.span.stop⟩
      ∧ o.label.span.filled := by
  obtain ⟨lead, core, tail, rfl, hne, hspan, -⟩ := h.exists_core
  have hcore : List.Sublist core (lead ++ (core ++ tail)) :=
    (List.sublist_append_left core tail).trans (List.sublist_append_right lead _)
  obtain ⟨first, hfirst, last, hlast, hcover, haround⟩ := (horder.sublist hcore).cover hne
  rw [← hspan] at hcover haround
  refine ⟨first, hcore.subset hfirst, last, hcore.subset hlast, hcover, ?_⟩
  calc o.label.span.start.offset.toNat
    _ = first.span.start.offset.toNat := by rw [hcover]
    _ < first.span.stop.offset.toNat := horder.filled first (hcore.subset hfirst)
    _ ≤ o.label.span.stop.offset.toNat := (haround first hfirst).2

namespace Laid

/-- An outline in a row covers some of the tokens. -/
theorem covers_mem (h : Laid tokens os) (hmem : o ∈ os) : Covers tokens o := by
  induction os generalizing tokens with
  | nil => cases hmem
  | cons first os ih =>
    obtain _ | @⟨front, back, _, _, hfirst, hrest⟩ := h
    rcases List.mem_cons.1 hmem with rfl | hmem
    · exact hfirst.append_right back
    · exact (ih hrest hmem).append_left front

/-- Outlines in a row lie one behind the other. -/
theorem apart (h : Laid tokens os) (horder : InOrder tokens) :
    (os.map Outline.label).Pairwise fun child other => child.span.before other.span := by
  induction os generalizing tokens with
  | nil => exact .nil
  | cons o os ih =>
    obtain _ | @⟨front, back, _, _, hfirst, hrest⟩ := h
    have hfront := horder.sublist (List.sublist_append_left front back)
    have hback := horder.sublist (List.sublist_append_right front back)
    refine .cons ?_ (ih hrest hback)
    intro label member
    obtain ⟨other, hother, rfl⟩ := List.mem_map.1 member
    obtain ⟨_, _, last, hlast, hspan, -⟩ := hfirst.span_eq hfront
    obtain ⟨first, hfirst', _, _, hspan', -⟩ := (hrest.covers_mem hother).span_eq hback
    rw [hspan, hspan']
    exact (List.pairwise_append.1 horder.apart).2.2 last hlast first hfirst'

/-- Outlines in a row lie inside every span that is around their tokens. -/
theorem inside (h : Laid tokens os) (horder : InOrder tokens) {s : Span}
    (haround : ∀ token ∈ tokens, token.span.within s) :
    ∀ label ∈ os.map Outline.label, label.span.within s := by
  intro label member
  obtain ⟨o, ho, rfl⟩ := List.mem_map.1 member
  obtain ⟨first, hfirst, last, hlast, hspan, -⟩ := (h.covers_mem ho).span_eq horder
  rw [hspan]
  exact ⟨(haround first hfirst).1, (haround last hlast).2⟩

end Laid

/-- A node whose span is that of tokens that stand in a source is placed in it. -/
theorem placed_node (hne : core ≠ []) (hspan : label.span = .cover core) (hsaid : label.SaidBy core)
    (hchildren : Laid core children) (hstands : ∀ token ∈ core, token ∈ tokens ∧ token.StandsIn source file)
    (horder : InOrder core) (hsize : byteLength source < 2 ^ 32) :
    label.Placed source file tokens (children.map Outline.label) := by
  obtain ⟨first, hfirst, last, hlast, hcover, haround⟩ := horder.cover hne
  have hends : label.span = ⟨first.span.start, last.span.stop⟩ := hspan.trans hcover
  have htext : ∀ token ∈ core, token.StandsIn source file := fun token member => (hstands token member).2
  exact {
    inside := hchildren.inside horder (hspan ▸ haround)
    apart := hchildren.apart horder
    file := hends ▸ ⟨(htext first hfirst).file_eq.1, (htext last hlast).file_eq.2⟩
    filled := (hspan ▸ haround first hfirst : first.span.within label.span).filled (horder.filled first hfirst)
    starts := ⟨first, (hstands first hfirst).1, (htext first hfirst).inside, by rw [hends]⟩
    stops := ⟨last, (hstands last hlast).1, (htext last hlast).inside, by rw [hends]⟩
    name := hsaid.name_cuts hspan htext hsize
    number := hsaid.number_cuts hspan htext hsize
    bool := hsaid.bool_cuts hspan htext hsize
    string := hsaid.string_cuts hspan htext hsize }

mutual

/-- An outline over tokens that stand in a source is placed in it with everything inside it. -/
theorem Covers.placed {core : List Token} {o : Outline} (h : Covers core o)
    (hstands : ∀ token ∈ core, token ∈ tokens ∧ token.StandsIn source file) (horder : InOrder core)
    (hsize : byteLength source < 2 ^ 32) : o.All (Label.Placed source file tokens) := by
  cases h with
  | @node lead inner tail label children hne hspan hsaid hchildren =>
    have hsub : List.Sublist inner (lead ++ (inner ++ tail)) :=
      (List.sublist_append_left inner tail).trans (List.sublist_append_right lead _)
    have hinner : ∀ token ∈ inner, token ∈ tokens ∧ token.StandsIn source file :=
      fun token member => hstands token (hsub.subset member)
    exact .node (placed_node hne hspan hsaid hchildren hinner (horder.sublist hsub) hsize)
      (Laid.placed hchildren hinner (horder.sublist hsub) hsize)
termination_by sizeOf o

theorem Laid.placed {core : List Token} {os : List Outline} (h : Laid core os)
    (hstands : ∀ token ∈ core, token ∈ tokens ∧ token.StandsIn source file) (horder : InOrder core)
    (hsize : byteLength source < 2 ^ 32) : ∀ o ∈ os, o.All (Label.Placed source file tokens) := by
  cases h with
  | nil => exact List.forall_mem_nil _
  | @cons front back o os hfirst hrest =>
    have hfront := List.sublist_append_left front back
    have hback := List.sublist_append_right front back
    exact List.forall_mem_cons.2
      ⟨Covers.placed hfirst (fun token member => hstands token (hfront.subset member)) (horder.sublist hfront) hsize,
        Laid.placed hrest (fun token member => hstands token (hback.subset member)) (horder.sublist hback) hsize⟩
termination_by sizeOf os

end

end Outline

/-! ## Programs -/

/-- The spans of a program that was read from a text of less than 2^32 bytes. The program itself reaches from
the beginning of the file to its end and has its items inside it, one behind the other; each node of an item
is placed in the text at its tokens. -/
theorem Program.ofSource_placed {p : Program} (h : ofSource source file = .ok p)
    (hsize : byteLength source < 2 ^ 32) :
    ∃ tokens, tokenize source file = .ok tokens
      ∧ p.span = ⟨⟨0, file⟩, ⟨UInt32.ofNat (byteLength source), file⟩⟩
      ∧ p.span.stop.offset.toNat = byteLength source
      ∧ p.outline.label.Encloses (p.items.map fun item => item.outline.label)
      ∧ ∀ item ∈ p.items, item.outline.All (Label.Placed source file tokens) := by
  obtain ⟨tokens, htokens, hread⟩ := ofSource_eq_ok_iff.1 h
  obtain ⟨words, rfl, hstands, horder⟩ := stands_of_tokenize htokens hsize
  refine ⟨_, htokens, ?_⟩
  obtain ⟨hitems, hspan⟩ := (ofTokens_eq_ok_iff.1 hread).of_words fun token member => (hstands token member).inside
  have hlaid := Spelling.items_lay (Spelling.upTo_covered maxNesting) hitems
  have hmember : ∀ token ∈ words, token ∈ words ++ [.endOfInput (.empty (.atByte (byteLength source) file))]
      ∧ token.StandsIn source file :=
    fun token member => ⟨List.mem_append_left _ member, hstands token member⟩
  have hstop : p.span.stop.offset.toNat = byteLength source := by
    rw [hspan]
    exact Position.toNat_atByte hsize file
  have haround : ∀ token ∈ words, token.span.within p.span := by
    intro token member
    obtain ⟨text, back, -, front, rest, hsource, -, hend⟩ := (hstands token member).exists_cuts hsize
    refine ⟨?_, ?_⟩
    · rw [hspan]
      exact Nat.zero_le _
    · rw [hstop, hend, hsource]
      simp only [byteLength_append]
      omega
  have hplaced := hlaid.placed hmember horder hsize
  rw [List.forall_mem_map] at hplaced
  refine ⟨hspan, hstop, ⟨?_, ?_⟩, hplaced⟩
  · have hinside := hlaid.inside horder haround
    rwa [List.map_map] at hinside
  · have hapart := hlaid.apart horder
    rwa [List.map_map] at hapart

/-- A definition of a text in parentheses: the span of the text leaves them out. -/
theorem Program.ofSource_placed_of_group :
    let source := ['x', ':', '=', '(', '\x27', 'a', '\x27', ')']
    let p : Program := ⟨[.statement (.define (.symbol "x" ⟨.atByte 0 "a", .atByte 1 "a"⟩)
      (.string "a" ⟨.atByte 4 "a", .atByte 7 "a"⟩) ⟨.atByte 0 "a", .atByte 8 "a"⟩)], ⟨.origin "a", .atByte 8 "a"⟩⟩
    ofSource source "a" = .ok p ∧ byteLength source < 2 ^ 32
      ∧ ∃ tokens, tokenize source "a" = .ok tokens
        ∧ ∀ item ∈ p.items, item.outline.All (Label.Placed source "a" tokens) := by
  intro source p
  have hread : ofSource source "a" = .ok p := by decide +kernel
  have hsize : byteLength source < 2 ^ 32 := by decide
  obtain ⟨tokens, htokens, -, -, -, hplaced⟩ := Program.ofSource_placed hread hsize
  exact ⟨hread, hsize, tokens, htokens, hplaced⟩

end WattFront
