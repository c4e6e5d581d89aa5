import WattFront.Proofs.Grammar.Truncation
import WattFront.Proofs.Token.Standing
import WattFront.Tree.Equality

/-! # Failures name the token they point at

A text that is no program fails in one of two ways. Either its tokens cannot be read, or the failure points at the
start of one of its tokens and speaks of that token: of the end of input only if the token is the end of input,
and of a token that was found only if it is this one. Numbers are not read a second time in vain, since the tokens
of a text hold numbers in range.

* `Failure.PointsAt` — what a failure of the grammar says about a token;
* `Program.ofTokens_rejects` — the cursor whose token a failure complains of;
* `Program.ofSource_points_at_token` — the result.
-/

namespace WattFront

open Grammar

variable {source : List Char} {tokens : List Token} {file : String} {f : Failure}

/-- What a failure of the grammar says about the token of a source that it points at. That the token is no operator
or no literal is never what it says. -/
inductive Failure.PointsAt (source : List Char) (t : Token) : Failure → Prop
  | unexpectedToken {expected} (hkind : t.kind ≠ .endOfInput)
    (hexpected : expected ∉ ["operator", "binary operator", "literal"]) :
    PointsAt source t ⟨.unexpectedToken expected t.found, t.span.start⟩
  | unexpectedEnd {expected} (hkind : t.kind = .endOfInput)
    (hend : t.span.start.offset.toNat = byteLength source)
    (hexpected : expected ∉ ["operator", "binary operator", "literal"]) :
    PointsAt source t ⟨.unexpectedEnd expected, t.span.start⟩
  | nestingTooDeep : PointsAt source t ⟨.nestingTooDeep 128, t.span.start⟩

theorem Failure.PointsAt.position_eq {t : Token} (h : f.PointsAt source t) : f.position = t.span.start := by
  cases h <;> rfl

/-! ## The token that a failure complains of -/

/-- A token list that is no program is refused at a cursor in front of its end of input, or right there. -/
theorem Program.ofTokens_rejects (h : ofTokens tokens file = .error f) :
    ∃ c : Cursor, c.tape = (Cursor.start tokens file).tape
      ∧ c.index ≤ (tokens.takeWhile (·.kind ≠ .endOfInput)).length
      ∧ (c.Rejects f ∨ c.kind = .identifier ∧ f = bareChain c.current) := by
  obtain ⟨d, hfailed⟩ : ∃ d, Grammar.items (.start tokens file) = .failed f d := by
    rw [ofTokens] at h
    split at h
    · cases h
    · next hrun =>
      cases h
      exact ⟨_, hrun⟩
  obtain ⟨htape, hindex⟩ := items_stays tokens file
  rw [hfailed] at htape hindex
  -- The item that fails starts at `c`, and a bare chain is complained of there rather than at `d`.
  obtain ⟨front, before, c, hfront, -, -, hitem⟩ := (items_eq_failed (by simp [Cursor.start])).1 hfailed
  have hle : c.index ≤ d.index := by
    have hforward := Reading.Forward.le (atCursor item) c
    rwa [hitem] at hforward
  rw [atCursor_of_room (hfront.room (by simp [Cursor.start]))] at hitem
  rcases item_rejects hitem with hrejects | ⟨hkind, hbare, -⟩
  · exact ⟨d, htape, hindex, .inl hrejects⟩
  · exact ⟨c, hfront.tape_eq, Nat.le_trans hle hindex, .inr ⟨hkind, hbare⟩⟩

/-- The current token of a cursor is one of the list, if the list states its end of input. -/
theorem Cursor.current_mem {c : Cursor} {words : List Token} {s : Span}
    (htape : c.tape = (start (words ++ [.endOfInput s]) file).tape)
    (hindex : c.index ≤ ((words ++ [Token.endOfInput s]).takeWhile (·.kind ≠ .endOfInput)).length) :
    c.current ∈ words ++ [.endOfInput s] := by
  have hlt := Nat.lt_of_le_of_lt hindex (length_inside_lt words s)
  have hcurrent : c.current = (words ++ [Token.endOfInput s])[c.index] := by
    rw [Cursor.current_eq, htape, Cursor.start_at, tokenAt, List.getD_eq_getElem?_getD,
      List.getElem?_eq_getElem hlt, Option.getD_some]
  rw [hcurrent]
  exact List.getElem_mem hlt

/-- A number in a text has a value. -/
theorem Token.StandsIn.value_isSome {t : Token} (h : t.StandsIn source file) (hkind : t.kind = .number) :
    Numeral.value? t.value.toList ≠ none := by
  obtain ⟨front, text, back, -, helement, -⟩ := h
  have htext := helement.text_eq
  rw [hkind, if_neg nofun] at htext
  obtain ⟨rfl, hnumber⟩ := htext
  -- The range has been checked when the token was read, on the same digits.
  obtain ⟨hne, hdigits, hrange⟩ := hnumber rfl
  obtain ⟨c, cs, hvalue⟩ := List.exists_cons_of_ne_nil hne
  rw [hvalue] at hdigits hrange ⊢
  rw [Numeral.value?_of_digits hdigits, if_pos hrange]
  exact Option.some_ne_none _

/-! ## Texts -/

/-- A text whose tokens are no program fails at one of them. -/
theorem Program.ofTokens_points_at (htokens : tokenize source file = .ok tokens)
    (hsize : byteLength source < 2 ^ 32) (h : ofTokens tokens file = .error f) :
    ∃ t ∈ tokens, f.PointsAt source t ∧ t.span.start.file = file := by
  obtain ⟨words, rfl, hstands, -⟩ := stands_of_tokenize htokens hsize
  obtain ⟨c, htape, hindex, hrejects⟩ := ofTokens_rejects h
  have hmem := c.current_mem htape hindex
  have hcases : c.current.StandsIn source file
      ∨ c.current = .endOfInput (.empty (.atByte (byteLength source) file)) := by
    simpa using (List.mem_append.1 hmem).imp_left (hstands c.current)
  have hfile : c.current.span.start.file = file := by
    rcases hcases with hword | hend
    · exact hword.file_eq.1
    · rw [hend]
      rfl
  refine ⟨c.current, hmem, ?_, hfile⟩
  rcases hrejects with hrejects | ⟨hkind, rfl⟩
  · cases hrejects with
    | @unexpected expected hexpected =>
      rw [Cursor.unexpected]
      split
      · next hkind =>
        have hend := hcases.resolve_left fun hword => hword.inside hkind
        refine .unexpectedEnd hkind ?_ hexpected.notMem
        rw [hend]
        exact Position.toNat_atByte hsize file
      · next hkind => exact .unexpectedToken hkind hexpected.notMem
    | tooDeep => exact .nestingTooDeep
    | badNumeral hkind hvalue =>
      have hword := hcases.resolve_right fun hend => by
        rw [Cursor.kind, hend] at hkind
        cases hkind
      exact absurd hvalue (hword.value_isSome hkind)
  · refine .unexpectedToken ?_ (by decide)
    rw [← Cursor.kind, hkind]
    decide

/-- Where no element stands, the failure is lexical. -/
theorem failureAt_lexical (c : Char) (cs : List Char) : (failureAt c cs).category = .lexical := by
  rw [failureAt]
  split
  · rfl
  · split
    · rfl
    · split <;> rfl

/-- A text that is no program fails in its own file. Either its tokens cannot be read, or the failure points at one
of them and says what that token is. So the grammar never complains of what the tokens of a text have been read
for already. -/
theorem Program.ofSource_points_at_token (hsize : byteLength source < 2 ^ 32) (h : ofSource source file = .error f) :
    f.position.file = file
      ∧ (tokenize source file = .error f ∧ f.cause.category = .lexical
        ∨ ∃ tokens, tokenize source file = .ok tokens ∧ ∃ t ∈ tokens, f.PointsAt source t) := by
  cases htokens : tokenize source file with
  | error g =>
    have hfailed : ofSource source file = .error g := by
      rw [ofSource, htokens]
      rfl
    rw [hfailed] at h
    cases h
    obtain ⟨-, c, cs, -, rfl⟩ := (lexed_of_tokenize htokens).exists_failure
    exact ⟨rfl, .inl ⟨rfl, failureAt_lexical c cs⟩⟩
  | ok tokens =>
    have hread : ofTokens tokens file = .error f := by
      rw [ofSource, htokens] at h
      exact h
    obtain ⟨t, hmem, hpoints, hfile⟩ := ofTokens_points_at htokens hsize hread
    exact ⟨hpoints.position_eq ▸ hfile, .inr ⟨tokens, rfl, t, hmem, hpoints⟩⟩

/-- The two keywords of other languages, of which the second one is refused. -/
theorem Program.ofSource_points_at_token_of_two_keywords :
    let source := ['i', 'f', ' ', 'a', '{', '}', 'e', 'l', 's', 'e', ' ', 'i', 'f']
    let f : Failure := ⟨.unexpectedToken "`elif` instead of `else if`" "if", .atByte 11 "a"⟩
    byteLength source < 2 ^ 32 ∧ ofSource source "a" = .error f ∧ f.position.file = "a"
      ∧ ∃ tokens, tokenize source "a" = .ok tokens ∧ ∃ t ∈ tokens, f.PointsAt source t := by
  intro source f
  have hsize : byteLength source < 2 ^ 32 := by decide
  have hread : ofSource source "a" = .error f := by decide +kernel
  obtain ⟨hfile, ⟨-, hcategory⟩ | hpoints⟩ := Program.ofSource_points_at_token hsize hread
  · cases hcategory
  · exact ⟨hsize, hread, hfile, hpoints⟩

end WattFront
