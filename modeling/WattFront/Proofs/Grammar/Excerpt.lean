import WattFront.Proofs.Grammar.Concatenation
import WattFront.Proofs.Token.Excerpt

/-! # Items by themselves

The text under an item of a program is a program of its own. Read by itself it has exactly that item, back by the
bytes in front of it: the span of an item reaches from its first token to its last one, and neither what stands in
front of the item nor what stands behind it has a say in how its tokens are read.

* `Spelling.item_span` — the span of an item is that of its tokens;
* `Spelling.Several.exists_around` — an item in a row, with its tokens between those of the others;
* `Program.ofSource_excerpt` — the result for texts.
-/

namespace WattFront

open Grammar

namespace Spelling

variable {α : Type} {tokens : List Token} {next : Token}

/-! ## Items in a row -/

/-- An item in a row has tokens of its own, between those of the items in front of it and behind it. -/
theorem Several.exists_around {item : Form α} {as : List α} {a : α} (h : Several item tokens next as) (ha : a ∈ as) :
    ∃ front core back, tokens = front ++ (core ++ back) ∧ item core (back.headD next) a := by
  induction h with
  | nil => cases ha
  | @cons core others next first as hitem _ ih =>
    rcases List.mem_cons.1 ha with rfl | ha
    · exact ⟨[], core, others, rfl, hitem⟩
    · obtain ⟨front, inner, back, rfl, hinner⟩ := ih ha
      exact ⟨core ++ front, inner, back, (List.append_assoc ..).symm, hinner⟩

section

variable {inner : Inner}

theorem named_span {f : Function} (h : Named inner tokens next f) : f.span = .cover tokens := by
  obtain ⟨-, -, -, -⟩ := h
  rfl

theorem statement_span {s : Stmt} (h : Statement inner tokens next s) : s.span = .cover tokens := by
  cases h with
  | function hnamed => exact named_span hnamed
  | _ => rfl

/-- The span of an item reaches from its first token to its last one. -/
theorem item_span {i : WattFront.Item} (h : Item inner tokens next i) : i.span = .cover tokens := by
  cases h with
  | definition hdefined =>
    cases hdefined with
    | function hnamed => exact named_span hnamed
    | _ => rfl
  | imports => rfl
  | statement hstatement => exact statement_span hstatement

end

end Spelling

/-! ## Programs with one item -/

variable {core : List Token} {file : String} {i : Item} {next : Token}

/-- The tokens of an item, with the end of input behind them, are a program of that item. -/
theorem Program.ofTokens_item (h : Spelling.Item (Spelling.upTo maxNesting) core next i)
    (hinside : ∀ token ∈ core, token.kind ≠ .endOfInput) (stop : Position) :
    ofTokens (core ++ [.endOfInput (.empty stop)]) file = .ok ⟨[i], ⟨.origin file, stop⟩⟩ := by
  have halone : Spelling.Item (Spelling.upTo maxNesting) core (.endOfInput (.empty stop)) i :=
    Spelling.item_endsBefore (Spelling.upTo_endsBefore maxNesting) h rfl
  have hrow : Row core (.endOfInput (.empty stop)) [i] := by
    have hone : Row (core ++ []) (.endOfInput (.empty stop)) [i] := .cons halone .nil
    rwa [List.append_nil] at hone
  have hall : ∀ token ∈ core, decide (token.kind ≠ .endOfInput) = true :=
    fun token member => decide_eq_true (hinside token member)
  have hend : (Token.endOfInput (.empty stop)).kind = .endOfInput := rfl
  have htake : (core ++ [Token.endOfInput (.empty stop)]).takeWhile (·.kind ≠ .endOfInput) = core := by
    rw [List.takeWhile_append_of_pos hall]
    simp [hend]
  have hending : Spelling.ending (core ++ [.endOfInput (.empty stop)]) file = .endOfInput (.empty stop) := by
    rw [Spelling.ending, List.dropWhile_append_of_pos hall]
    simp [hend]
  refine ofTokens_eq_ok_iff.2 ⟨?_, ?_⟩
  · rw [htake, hending]
    exact Spelling.many_iff.2 ⟨hrow, rfl⟩
  · rw [hending]
    rfl

/-- Tokens at other positions are read as the same program at these. -/
theorem Program.ofTokens_moved {words : List Token} {s : Span} {p : Program}
    (h : ofTokens (words ++ [.endOfInput s]) file = .ok p) (move : Position → Position) :
    ofTokens ((words ++ [Token.endOfInput s]).map (Token.moved move)) file
      = .ok ⟨p.items.map (Item.moved move), ⟨.origin file, move p.span.stop⟩⟩ := by
  rw [ofTokens_eq_moved, h]

/-! ## Texts -/

/-- The text under an item of a program, read by itself, is a program with exactly that item, back by the bytes
in front of it. -/
theorem Program.ofSource_excerpt {source : List Char} {p : Program} (h : ofSource source file = .ok p)
    (hsize : byteLength source < 2 ^ 32) (hi : i ∈ p.items) :
    (∃ text, i.span.Cuts source text)
      ∧ ∀ text, i.span.Cuts source text →
        ofSource text file = .ok
          ⟨[i.moved (.back i.span.start.offset)], ⟨.origin file, .atByte (byteLength text) file⟩⟩ := by
  obtain ⟨tokens, htokens, hread⟩ := ofSource_eq_ok_iff.1 h
  obtain ⟨words, rfl, hstands, -⟩ := stands_of_tokenize htokens hsize
  have hinside : ∀ token ∈ words, token.kind ≠ .endOfInput := fun token member => (hstands token member).inside
  have hitems := (Spelling.many_iff.1 ((ofTokens_eq_ok_iff.1 hread).of_words hinside).1).1
  obtain ⟨front, core, back, rfl, hitem⟩ := hitems.exists_around hi
  have hne : core ≠ [] := by
    obtain ⟨first, others, rfl, -⟩ := item_opens hitem
    exact List.cons_ne_nil _ _
  have hlexed := lexed_of_tokenize htokens
  rw [List.append_assoc, List.append_assoc] at hlexed
  obtain ⟨before, piece, behind, rfl, hcover, hpiece⟩ :=
    hlexed.exists_piece hne fun token member => hinside token (by simp at member ⊢; tauto)
  rw [Nat.zero_add, Nat.zero_add] at hpiece hcover
  have hspan := (Spelling.item_span hitem).trans hcover
  have hcuts : i.span.Cuts (before ++ (piece ++ behind)) piece := by
    simp only [byteLength_append] at hsize
    refine ⟨before, behind, rfl, ?_, ?_⟩
    · rw [hspan]
      exact Position.toNat_atByte (by omega) file
    · rw [hspan]
      exact Position.toNat_atByte (by simp only [byteLength_append]; omega) file
  refine ⟨⟨piece, hcuts⟩, fun text htext => ?_⟩
  obtain rfl := hcuts.unique htext
  -- By itself the text has the tokens of the item, back by what stands in front of it.
  have halone : ofTokens (core ++ [.endOfInput (.empty (.atByte (byteLength (before ++ text)) file))]) file
      = .ok ⟨[i], ⟨.origin file, .atByte (byteLength (before ++ text)) file⟩⟩ :=
    ofTokens_item hitem (fun token member => hinside token (by simp [member])) _
  have hmoved := ofTokens_moved halone (.back (.ofNat (byteLength before)))
  have hstop : (Position.atByte (byteLength (before ++ text)) file).back (.ofNat (byteLength before))
      = .atByte (byteLength text) file := by
    rw [byteLength_append, Nat.add_comm, ← Position.shift_atByte, Position.back_shift]
  rw [ofSource_eq_ok_iff]
  refine ⟨_, hpiece.tokenize_back, ?_⟩
  rw [hmoved, hspan]
  exact congrArg (fun stop => Except.ok (Program.mk _ ⟨_, stop⟩)) hstop

set_option maxRecDepth 1000 in
/-- The second of two definitions, whose value stands in parentheses. -/
theorem Program.ofSource_excerpt_of_group :
    let source := ['x', ':', '=', '1', '\n', 'y', ':', '=', '(', 'z', ')']
    let i : Item := .statement (.define (.symbol "y" ⟨.atByte 5 "a", .atByte 6 "a"⟩)
      (.symbol "z" ⟨.atByte 9 "a", .atByte 10 "a"⟩) ⟨.atByte 5 "a", .atByte 11 "a"⟩)
    let p : Program := ⟨[.statement (.define (.symbol "x" ⟨.atByte 0 "a", .atByte 1 "a"⟩)
      (.number 1 ⟨.atByte 3 "a", .atByte 4 "a"⟩) ⟨.atByte 0 "a", .atByte 4 "a"⟩), i], ⟨.origin "a", .atByte 11 "a"⟩⟩
    let text := ['y', ':', '=', '(', 'z', ')']
    ofSource source "a" = .ok p ∧ byteLength source < 2 ^ 32 ∧ i ∈ p.items ∧ i.span.Cuts source text
      ∧ ofSource text "a" = .ok ⟨[i.moved (.back 5)], ⟨.origin "a", .atByte 6 "a"⟩⟩ := by
  intro source i p text
  have hread : ofSource source "a" = .ok p := by decide +kernel
  have hsize : byteLength source < 2 ^ 32 := by decide
  have hi : i ∈ p.items := List.mem_cons_of_mem _ List.mem_cons_self
  have hcuts : i.span.Cuts source text := ⟨['x', ':', '=', '1', '\n'], [], rfl, rfl, rfl⟩
  exact ⟨hread, hsize, hi, hcuts, (Program.ofSource_excerpt hread hsize hi).2 text hcuts⟩

end WattFront
