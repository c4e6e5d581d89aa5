import WattFront.Proofs.Grammar.Excerpt
import WattFront.Proofs.Grammar.NestingBudget
import WattFront.Proofs.Grammar.Ungrouped

/-! # Expressions by themselves

The text under an expression of a program is an expression of its own, back by the bytes in front of it, as long as
the span does not cut through parentheses. Only an operator has a span that may: the span goes from that of its left
operand to that of its right one, and the parentheses around an operand are not under the span of the operand.

The target of a definition or an assignment at top level is read with no level open, but by itself it is an
expression, which opens one. So a target whose arguments take up all levels is too deep by itself.

* `Grammar.expr_at_end`, `Grammar.expr_at_end_or_tooDeep` — an expression in front of the end of input;
* `Grammar.expr_moved` — an expression at another position;
* `Program.ofSource_expression` — the result for texts.
-/

namespace WattFront

open Grammar

variable {source text : List Char} {core words : List Token} {file : String} {next : Token} {e : Expr}
  {p : Program}

/-! ## In front of the end of input -/

namespace Cursor

variable {c d : Cursor} {tokens : List Token}

theorem Passes.atDepth (h : c.Passes tokens d) (depth : Nat) : (c.atDepth depth).Passes tokens (d.atDepth depth) :=
  ⟨h.ahead, h.behind, h.inside, h.ending, h.file, rfl⟩

end Cursor

namespace Grammar

/-- Started with no level open, an expression is what its operands and operators are one level deeper. -/
theorem atCursor_expr {c : Cursor} (hdepth : c.depth = 0) :
    atCursor (·.expr .lowest) c
      = Reading.closing (atCursor fun inner => operations inner .lowest) (c.atDepth 1) := by
  have hroom : c.depth + maxNesting ≤ maxNesting := by omega
  rw [atCursor_of_room hroom]
  show Reading.within (operations (nested 127) .lowest) c = _
  rw [Reading.within_eq, Reading.enter_bind _ (by rw [hdepth]; decide), hdepth]
  rfl

section

variable (hinside : ∀ token ∈ core, token.kind ≠ .endOfInput) (s : Span)

include hinside

/-- Operands and operators are read up to the end of input, wherever there is room for them. -/
theorem operations_at_end {levels n : Nat}
    (h : Spelling.Operated (Spelling.upTo levels) .lowest core next e) (hroom : n + levels = maxNesting) :
    atCursor (fun inner => operations inner .lowest) ((Cursor.start (core ++ [.endOfInput s]) file).atDepth n)
      = .done e ((Cursor.behindOf core [.endOfInput s] file).atDepth n) := by
  have hpass := (Cursor.start_passes_behindOf hinside [.endOfInput s] file).atDepth n
  have hends := Spelling.operated_endsBefore (Spelling.upTo_endsBefore levels) .lowest
  have halone : Spelling.Operated (Spelling.upTo levels) .lowest core (.endOfInput s) e := hends h rfl
  have hlevels : ((Cursor.start (core ++ [.endOfInput s]) file).atDepth n).room = levels := by
    rw [Cursor.room, Cursor.depth_atDepth]
    omega
  rw [atCursor, hlevels]
  exact (accepts_operations (nested_spells levels) .lowest trivial (Nat.le_of_eq hroom) e _).2
    ⟨core, hpass, .intro halone rfl⟩

/-- An expression that has a level for itself is read up to the end of input. -/
theorem expr_at_end (h : Spelling.Operated (Spelling.upTo 127) .lowest core next e) :
    atCursor (·.expr .lowest) (.start (core ++ [.endOfInput s]) file)
      = .done e (.behindOf core [.endOfInput s] file) := by
  rw [atCursor_expr rfl, Reading.closing, operations_at_end hinside s h rfl]
  rfl

/-- An expression whose parts take up all levels is read up to the end of input too, or there is no level for it. -/
theorem expr_at_end_or_tooDeep (h : Spelling.Operated (Spelling.upTo maxNesting) .lowest core next e) :
    atCursor (·.expr .lowest) (.start (core ++ [.endOfInput s]) file)
        = .done e (.behindOf core [.endOfInput s] file)
      ∨ ∃ f c, atCursor (·.expr .lowest) (.start (core ++ [.endOfInput s]) file) = .failed f c
          ∧ f.cause = .nestingTooDeep maxNesting := by
  have hfree : atCursor (fun inner => operations inner .lowest)
      ((Cursor.start (core ++ [.endOfInput s]) file).atDepth 0)
        = .done e ((Cursor.behindOf core [.endOfInput s] file).atDepth 0) :=
    operations_at_end hinside s h (Nat.zero_add maxNesting)
  -- One level deeper, the operands and operators are the same unless they run out of room.
  have hdeeper := (Construct.operations .lowest).compare (.start (core ++ [.endOfInput s]) file) (Nat.zero_le 1)
  rw [hfree] at hdeeper
  rw [atCursor_expr rfl, Reading.closing]
  generalize atCursor (fun inner => operations inner .lowest) ((Cursor.start (core ++ [.endOfInput s]) file).atDepth 1)
    = o at hdeeper ⊢
  cases hdeeper with
  | done => exact .inl rfl
  | tooDeep hcause => exact .inr ⟨_, _, rfl, hcause⟩

end

/-! ## At another position -/

/-- Tokens at other positions are read as the same expression at these, or fail in the same way. -/
theorem expr_moved (words : List Token) (s : Span) (move : Position → Position) (file : String) :
    (∀ e c, atCursor (·.expr .lowest) (.start (words ++ [.endOfInput s]) file) = .done e c →
        ∃ d, atCursor (·.expr .lowest) (.start ((words ++ [Token.endOfInput s]).map (Token.moved move)) file)
            = .done (e.moved move) d ∧ d.kind = c.kind)
      ∧ ∀ f c, atCursor (·.expr .lowest) (.start (words ++ [.endOfInput s]) file) = .failed f c →
        ∃ d, atCursor (·.expr .lowest) (.start ((words ++ [Token.endOfInput s]).map (Token.moved move)) file)
          = .failed (f.moved move) d := by
  have hend := length_inside_lt words s
  let w := TapePair.ofBehind [] move file hend
  have hmoved {t u : Token} (h : w.Related t u) : u = t.moved move := TapePair.moved_of_related hend h
  have hstep : w.InStep (.start (words ++ [.endOfInput s]) file)
      (.start ((words ++ [Token.endOfInput s]).map (Token.moved move)) file) :=
    ⟨rfl, rfl, rfl, rfl, Nat.zero_le _⟩
  have hfollows : w.Follows 0 1 (atCursor (·.expr .lowest)) (atCursor (·.expr .lowest)) (Expr.Matches w.Related) :=
    .atCursor fun levels => (TapePair.reads_nested levels).expr .lowest
  have hmeets := hfollows hstep (Nat.zero_le _)
  generalize atCursor (·.expr .lowest) (.start (words ++ [.endOfInput s]) file) = o at hmeets ⊢
  generalize atCursor (·.expr .lowest) (.start ((words ++ [Token.endOfInput s]).map (Token.moved move)) file) = o'
    at hmeets ⊢
  cases hmeets with
  | @done e e' c d he hstep' =>
    obtain rfl : e' = e.moved move := (onlyMoves_hereditary hmoved).ofExpr e e' he
    refine ⟨fun _ _ h => ?_, nofun⟩
    cases h
    exact ⟨d, rfl, hstep'.kind⟩
  | @failed f g c d hfg =>
    obtain rfl := hfg.eq_moved hmoved
    refine ⟨nofun, fun _ _ h => ?_⟩
    cases h
    exact ⟨d, rfl⟩
  | beyond hbeyond => exact absurd (Cursor.kind_start_at _ file) hbeyond.further

end Grammar

/-- Parentheses belong together wherever the tokens stand, and with the end of input behind them. -/
theorem balanced_moved {s : Span} {move : Position → Position} :
    Balanced ((words ++ [Token.endOfInput s]).map (Token.moved move)) ↔ Balanced words := by
  have hend : openParens 0 (words ++ [Token.endOfInput s]) = openParens 0 words := by
    rw [openParens_append]
    exact Option.bind_fun_some _
  have hkinds (t : Token) (count : Nat) : afterParen count (t.moved move).kind = afterParen count t.kind := rfl
  rw [Balanced, Balanced, openParens, List.foldlM_map]
  simp only [hkinds]
  rw [← openParens, hend]

/-! ## All of a token list -/

/-- An expression is read from all tokens of a list, up to the end of input. -/
def Expr.IsAllOf (e : Expr) (tokens : List Token) (file : String) : Prop :=
  ∃ c, (Production.expr .lowest).parse (.start tokens file) = .done (.expr e) c ∧ c.kind = .endOfInput

def TooDeep (tokens : List Token) (file : String) : Prop :=
  ∃ f c, (Production.expr .lowest).parse (.start tokens file) = .failed f c ∧ f.cause = .nestingTooDeep maxNesting

theorem Production.parse_expr (c : Cursor) :
    (Production.expr .lowest).parse c
      = (atCursor (·.expr .lowest) c).bind fun e d => .done (.expr e) d := rfl

section

variable (hinside : ∀ token ∈ core, token.kind ≠ .endOfInput) (s : Span) (move : Position → Position)

include hinside

/-- The tokens of an expression that has a level for itself, at another position. -/
theorem Expr.isAllOf_moved (h : Spelling.Operated (Spelling.upTo 127) .lowest core next e) :
    (e.moved move).IsAllOf ((core ++ [Token.endOfInput s]).map (Token.moved move)) file := by
  obtain ⟨d, hrun, hkind⟩ := (expr_moved core s move file).1 _ _ (expr_at_end hinside s h)
  exact ⟨d, by rw [Production.parse_expr, hrun]; rfl, hkind⟩

/-- The tokens of an expression whose parts take up all levels, at another position. -/
theorem Expr.isAllOf_moved_or_tooDeep (h : Spelling.Operated (Spelling.upTo maxNesting) .lowest core next e) :
    (e.moved move).IsAllOf ((core ++ [Token.endOfInput s]).map (Token.moved move)) file
      ∨ TooDeep ((core ++ [Token.endOfInput s]).map (Token.moved move)) file := by
  obtain ⟨hdone, hfailed⟩ := expr_moved core s move file
  rcases expr_at_end_or_tooDeep hinside s h with hrun | ⟨f, c, hrun, hcause⟩
  · obtain ⟨d, hrun', hkind⟩ := hdone _ _ hrun
    exact .inl ⟨d, by rw [Production.parse_expr, hrun']; rfl, hkind⟩
  · obtain ⟨d, hrun'⟩ := hfailed _ _ hrun
    exact .inr ⟨f.moved move, d, by rw [Production.parse_expr, hrun']; rfl, hcause⟩

end

/-! ## Texts -/

/-- The tokens of an expression stand among those of the text. They leave a level for the expression itself, unless
it is a link of a target at top level. -/
theorem Program.exists_tokens (h : ofSource source file = .ok p) (hsize : byteLength source < 2 ^ 32)
    (he : e ∈ p.expressions) :
    ∃ front own back next, tokenize source file = .ok (front ++ (own ++ back))
      ∧ (∀ token ∈ front ++ own, token.kind ≠ .endOfInput) ∧ Spelling.Ungrouped (Spelling.upTo maxNesting) own next e
      ∧ (Spelling.Operated (Spelling.upTo 127) .lowest own next e ∨ e ∈ p.targetLinks) := by
  obtain ⟨tokens, htokens, hread⟩ := ofSource_eq_ok_iff.1 h
  obtain ⟨words, rfl, hstands, -⟩ := stands_of_tokenize htokens hsize
  have hinside : ∀ token ∈ words, token.kind ≠ .endOfInput := fun token member => (hstands token member).inside
  obtain ⟨i, hi, hei⟩ := List.mem_flatMap.1 he
  have hitems := (Spelling.many_iff.1 ((ofTokens_eq_ok_iff.1 hread).of_words hinside).1).1
  obtain ⟨front, words, back, rfl, hitem⟩ := hitems.exists_around hi
  obtain ⟨front', own, back', next, rfl, hown, hroom⟩ := Spelling.item_owns hitem hei
  refine ⟨front ++ front', own, back' ++ (back ++ [_]), next, by simpa using htokens, ?_, hown, ?_⟩
  · exact fun token member => hinside token (by simp at member ⊢; tauto)
  · exact hroom.imp_right fun hlink => List.mem_flatMap.2 ⟨i, hi, hlink⟩

/-- The text under an expression of a program has tokens of its own. If their parentheses belong together, as they do
under everything but an operator, all of them are read as the same expression, back by the bytes in front of it. Only
for a target at top level, or a chain that one starts with, there may be no level by itself. -/
theorem Program.ofSource_expression (h : ofSource source file = .ok p)
    (hsize : byteLength source < 2 ^ 32) (he : e ∈ p.expressions) :
    (∃ text, e.span.Cuts source text)
      ∧ ∀ text, e.span.Cuts source text → ∃ tokens, tokenize text file = .ok tokens
        ∧ (e.isBinary = false → Balanced tokens)
        ∧ (Balanced tokens → (e.moved (.back e.span.start.offset)).IsAllOf tokens file
            ∨ e ∈ p.targetLinks ∧ TooDeep tokens file) := by
  obtain ⟨front, own, back, next, htokens, hinside, hown, hroom⟩ := p.exists_tokens h hsize he
  obtain ⟨lead, core, tail, rfl, hne, hspan, hwhole, hbalanced⟩ := hown.span
  have hsplit : tokenize source file = .ok ((front ++ lead) ++ (core ++ (tail ++ back))) := by simpa using htokens
  have hfront : ∀ token ∈ (front ++ lead) ++ core, token.kind ≠ .endOfInput :=
    fun token member => hinside token (by simp at member ⊢; tauto)
  obtain ⟨text, hcuts, htext⟩ := exists_cut hsplit hsize hne hfront
  rw [← hspan] at hcuts htext
  refine ⟨⟨text, hcuts⟩, fun text' hcuts' => ?_⟩
  obtain rfl := hcuts.unique hcuts'
  refine ⟨_, htext, fun hbinary => balanced_moved.2 (hbalanced hbinary), fun hall => ?_⟩
  obtain ⟨rfl, rfl⟩ := hwhole (balanced_moved.1 hall)
  rw [List.nil_append, List.append_nil] at hown hroom
  have hcore : ∀ token ∈ core, token.kind ≠ .endOfInput :=
    fun token member => hfront token (List.mem_append_right _ member)
  rcases hroom with hoperated | hlink
  · exact .inl (Expr.isAllOf_moved hcore _ _ hoperated)
  · exact (Expr.isAllOf_moved_or_tooDeep hcore _ _ hown.operated).imp_right fun hdeep => ⟨hlink, hdeep⟩

set_option maxRecDepth 1000 in
/-- The left operand of a product, which stands in parentheses. -/
theorem Program.ofSource_expression_of_group :
    let source := ['x', ':', '=', '(', '1', '+', '2', ')', '*', '3']
    let number (value : Int) (offset : Nat) : Expr := .number value ⟨.atByte offset "a", .atByte (offset + 1) "a"⟩
    let e : Expr := .binary .plus (number 1 4) (number 2 6) ⟨.atByte 4 "a", .atByte 7 "a"⟩
    let p : Program := ⟨[.statement (.define (.symbol "x" ⟨.atByte 0 "a", .atByte 1 "a"⟩)
      (.binary .multiply e (number 3 9) ⟨.atByte 4 "a", .atByte 10 "a"⟩) ⟨.atByte 0 "a", .atByte 10 "a"⟩)],
      ⟨.origin "a", .atByte 10 "a"⟩⟩
    let text := ['1', '+', '2']
    ofSource source "a" = .ok p ∧ byteLength source < 2 ^ 32 ∧ e ∈ p.expressions ∧ e.span.Cuts source text
      ∧ ∃ tokens, tokenize text "a" = .ok tokens ∧ Balanced tokens ∧ (e.moved (.back 4)).IsAllOf tokens "a" := by
  intro source number e p text
  have hread : ofSource source "a" = .ok p := by decide +kernel
  have hsize : byteLength source < 2 ^ 32 := by decide
  have he : e ∈ p.expressions := .tail _ (.tail _ (.head _))
  have hcuts : e.span.Cuts source text := ⟨['x', ':', '=', '('], [')', '*', '3'], rfl, rfl, rfl⟩
  have htext : tokenize text "a" = .ok [⟨.number, "1", ⟨.atByte 0 "a", .atByte 1 "a"⟩⟩,
      ⟨.plus, "+", ⟨.atByte 1 "a", .atByte 2 "a"⟩⟩, ⟨.number, "2", ⟨.atByte 2 "a", .atByte 3 "a"⟩⟩,
      .endOfInput (.empty (.atByte 3 "a"))] := by decide +kernel
  obtain ⟨tokens, htokens, -, hbalanced⟩ := (Program.ofSource_expression hread hsize he).2 text hcuts
  obtain rfl := Except.ok.inj (htext.symm.trans htokens)
  refine ⟨hread, hsize, he, hcuts, _, htext, by decide, ?_⟩
  rcases hbalanced (by decide) with hall | ⟨hlink, -⟩
  · exact hall
  · exact absurd (congrArg Expr.isBinary (List.mem_singleton.1 hlink)) (by decide)

/-! ## Expressions that do not stand by themselves -/

/-- An expression is not all of the text under it if less than that is read there. -/
theorem Program.exists_part {s : Span} (hcuts : s.Cuts source text)
    (hread : (ofSource source file).toOption.any (·.expressions.any fun e => decide (e.span = s)) = true)
    (hrun : (tokenize text file).toOption.any (fun tokens =>
      ((Production.expr .lowest).parse (.start tokens file)).cursor.kind ≠ .endOfInput) = true) :
    ∃ p e tokens, ofSource source file = .ok p ∧ e ∈ p.expressions ∧ e.span.Cuts source text
      ∧ tokenize text file = .ok tokens ∧ ¬ (e.moved (.back e.span.start.offset)).IsAllOf tokens file := by
  cases hp : ofSource source file with
  | error f =>
    rw [hp] at hread
    cases hread
  | ok p =>
    rw [hp] at hread
    obtain ⟨e, he, hspan⟩ := List.any_eq_true.1 hread
    obtain rfl := of_decide_eq_true hspan
    cases htokens : tokenize text file with
    | error f =>
      rw [htokens] at hrun
      cases hrun
    | ok tokens =>
      rw [htokens] at hrun
      refine ⟨p, e, tokens, rfl, he, hcuts, rfl, fun ⟨c, hdone, hkind⟩ => ?_⟩
      have hstops := of_decide_eq_true hrun
      rw [hdone] at hstops
      exact hstops hkind

/-- The span of a sum whose left operand stands in parentheses cuts through these, and only the operand is read. By
itself, the target of a definition is too deep if its argument takes up all levels. -/
theorem Program.ofSource_expression_cut_through :
    let row (count : Nat) (text : List Char) : List Char := (List.replicate count text).flatten
    let sum := ['x', ':', '=', '(', '1', ')', '+', '2']
    let target := ['f', '('] ++ row 127 ['('] ++ ['1'] ++ row 127 [')'] ++ [')']
    ∀ source ∈ [(sum, ['1', ')', '+', '2']), (target ++ [':', '=', '1'], target)],
      byteLength source.1 < 2 ^ 32 ∧ ∃ p e tokens, ofSource source.1 "a" = .ok p ∧ e ∈ p.expressions
        ∧ e.span.Cuts source.1 source.2 ∧ tokenize source.2 "a" = .ok tokens
        ∧ ¬ (e.moved (.back e.span.start.offset)).IsAllOf tokens "a" := by
  intro row sum target
  simp only [List.forall_mem_cons]
  refine ⟨?_, ?_, List.forall_mem_nil _⟩
  · have hcuts : Span.Cuts ⟨.atByte 4 "a", .atByte 8 "a"⟩ sum ['1', ')', '+', '2'] :=
      ⟨['x', ':', '=', '('], [], rfl, rfl, rfl⟩
    exact ⟨by decide, exists_part hcuts (by decide +kernel) (by decide +kernel)⟩
  · have hcuts : Span.Cuts ⟨.atByte 0 "a", .atByte 258 "a"⟩ (target ++ [':', '=', '1']) target :=
      ⟨[], [':', '=', '1'], rfl, rfl, by decide +kernel⟩
    exact ⟨by decide +kernel, exists_part hcuts (by decide +kernel) (by decide +kernel)⟩

end WattFront
