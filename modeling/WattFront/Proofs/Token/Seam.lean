import WattFront.Proofs.Token.Word
import WattFront.Proofs.Tree.Moved

/-! # Texts with a line feed between them

A line feed keeps two texts apart: no element of the first one reaches over it, not even a line comment, and
where the first one ends in blank space the line feed only adds to that. So the tokens of both texts together
are those of the first one and then those of the second one, further on by what stands in front of them.

* `Lexed.append_line` — what comes out of a text with a line feed and another text behind it;
* `Lexed.shift` — what comes out of a text that starts further on;
* `tokenize_joined` — the result.
-/

namespace WattFront

variable {file : String} {offset : Nat} {text rest front back more : List Char}
  {result : Except Failure (List Token)}

/-! ## Elements in front of a line feed -/

theorem mem_head?_append_line {c : Char} (h : c ∈ (rest ++ '\n' :: more).head?) : c ∈ rest.head? ∨ c = '\n' := by
  cases rest with
  | nil =>
    cases h
    exact .inr rfl
  | cons d rest => exact .inl h

theorem MaximalRun.append_line {p : Char → Bool} (h : MaximalRun p text rest) (hline : p '\n' = false) :
    MaximalRun p text (rest ++ '\n' :: more) where
  nonempty := h.nonempty
  all := h.all
  maximal := by
    intro c member
    rcases mem_head?_append_line member with member | rfl
    · exact h.maximal c member
    · exact hline

/-- What has no line feed in it does not reach over one. -/
theorem prefix_of_append_line {start : List Char} (hline : '\n' ∉ start)
    (h : start <+: text ++ (rest ++ '\n' :: more)) : start <+: text ++ rest := by
  rw [← List.append_assoc] at h
  refine prefix_of_append h ?_
  rintro c hc member
  cases hc
  exact hline (List.mem_of_mem_drop member)

/-- An element stays one if a line feed is put behind what follows it, unless it is blank space, which would
go on. -/
theorem Element.append_line {token? : Option (TokenKind × String)} (h : Element text rest token?) :
    token? = none ∧ (∀ c ∈ text, isBlank c = true) ∨ Element text (rest ++ '\n' :: more) token? := by
  cases h with
  | blank hrun => exact .inl ⟨rfl, hrun.all⟩
  | lineComment hbody hrest =>
    refine .inr (.lineComment hbody fun c member => ?_)
    rcases mem_head?_append_line member with member | rfl
    · exact hrest c member
    · rfl
  | blockComment hfirst => exact .inr (.blockComment hfirst)
  | word hrun hstart hkind => exact .inr (.word (hrun.append_line (by decide)) hstart hkind)
  | number hrun hrange => exact .inr (.number (hrun.append_line (by decide)) hrange)
  | string hbody => exact .inr (.string hbody)
  | mark hkind hlongest hline hblock =>
    have hmarks : ∀ kind ∈ TokenKind.marks, '\n' ∉ kind.lexeme.toList := by decide
    refine .inr (.mark hkind ?_ ?_ ?_)
    · intro other hother hstarts
      exact hlongest other hother (prefix_of_append_line (hmarks other hother) hstarts)
    · exact fun hstarts => hline (prefix_of_append_line (by decide) hstarts)
    · exact fun hstarts => hblock (prefix_of_append_line (by decide) hstarts)

/-! ## Texts -/

/-- Blank space in front of a text adds nothing to the outcome. -/
theorem Lexed.blanks (hall : ∀ c ∈ text, isBlank c = true)
    (h : Lexed file (offset + byteLength text) rest result) : Lexed file offset (text ++ rest) result := by
  induction text generalizing offset with
  | nil => exact h
  | cons c text ih =>
    rw [List.forall_mem_cons] at hall
    apply Lexed.blank_cons hall.1
    apply ih hall.2
    rwa [byteLength_cons, ← Nat.add_assoc] at h

/-- The tokens of a text are its words and the end of input, and with a line feed and another text behind it,
its words and what comes out of that text. -/
theorem Lexed.append_line {tokens : List Token} (h : Lexed file offset front (.ok tokens)) :
    ∃ words, tokens = words ++ [.endOfInput (.empty (.atByte (offset + byteLength front) file))]
      ∧ (∀ token ∈ words, token.kind ≠ .endOfInput)
      ∧ ∀ {back result}, Lexed file (offset + (byteLength front + 1)) back result →
        Lexed file offset (front ++ '\n' :: back) (result.map (words ++ ·)) := by
  generalize hresult : Except.ok tokens = outcome at h
  induction h generalizing tokens with
  | done =>
    cases hresult
    refine ⟨[], rfl, List.forall_mem_nil _, fun {back result} hback => ?_⟩
    have hnothing : result.map ([] ++ ·) = result := by cases result <;> rfl
    rw [hnothing]
    exact .blank_cons (by decide) hback
  | @skipped offset text rest outcome helement _ ih =>
    obtain ⟨words, htokens, hinside, hrest⟩ := ih hresult
    rw [byteLength_append, ← Nat.add_assoc]
    refine ⟨words, htokens, hinside, fun {back result} hback => ?_⟩
    rw [Nat.add_assoc, ← Nat.add_assoc (byteLength text)] at hback
    rw [List.append_assoc]
    have hbehind := @hrest back result (by simpa [Nat.add_assoc] using hback)
    -- Blank space may go on over the line feed. Then each of its characters adds nothing.
    rcases helement.append_line with ⟨-, hblank⟩ | helement
    · exact .blanks hblank hbehind
    · exact .skipped helement hbehind
  | @token offset text rest kind value outcome helement _ ih =>
    cases outcome with
    | error => cases hresult
    | ok others =>
      cases hresult
      obtain ⟨words, rfl, hinside, hrest⟩ := ih rfl
      rw [byteLength_append, ← Nat.add_assoc]
      refine ⟨_ :: words, rfl, List.forall_mem_cons.2 ⟨helement.spelled.inside, hinside⟩, ?_⟩
      intro back result hback
      have hbehind := @hrest back result (by simpa [Nat.add_assoc] using hback)
      rw [List.append_assoc]
      rcases helement.append_line with ⟨htoken, -⟩ | helement
      · cases htoken
      · have htext := Lexed.token helement hbehind
        cases result <;> exact htext
  | failed => cases hresult

/-! ## Texts that start further on -/

def outcomeMoved (move : Position → Position) : Except Failure (List Token) → Except Failure (List Token)
  | .ok tokens => .ok (tokens.map (Token.moved move))
  | .error f => .error (f.moved move)

/-- What comes out of a text that starts further on is further on. -/
theorem Lexed.shift (count : Nat) (h : Lexed file offset text result) :
    Lexed file (offset + count) text (outcomeMoved (Position.shift count) result) := by
  induction h with
  | @done offset =>
    have hend : outcomeMoved (Position.shift count) (.ok [.endOfInput (.empty (.atByte offset file))])
        = .ok [.endOfInput (.empty (.atByte (offset + count) file))] := by
      simp [outcomeMoved, Token.moved, Token.endOfInput, Span.moved, Span.empty, Position.shift_atByte]
    rw [hend]
    exact .done
  | skipped helement _ ih =>
    rw [Nat.add_right_comm] at ih
    exact .skipped helement ih
  | @token offset text rest kind value result helement _ ih =>
    rw [Nat.add_right_comm] at ih
    have htext := Lexed.token helement ih
    cases result with
    | error f => exact htext
    | ok tokens =>
      simpa [outcomeMoved, Except.map, Token.moved, Span.moved, Position.shift_atByte, Nat.add_right_comm]
        using htext
  | @failed offset c cs hnone =>
    have hfailed : outcomeMoved (Position.shift count) (.error ⟨failureAt c cs, .atByte offset file⟩)
        = .error ⟨failureAt c cs, .atByte (offset + count) file⟩ := by
      simp [outcomeMoved, Failure.moved, Position.shift_atByte]
    rw [hfailed]
    exact .failed hnone

/-- The tokens of two texts with a line feed between them. -/
theorem tokenize_append_line {tokens : List Token} (h : tokenize front file = .ok tokens) :
    ∃ words, tokens = words ++ [.endOfInput (.empty (.atByte (byteLength front) file))]
      ∧ (∀ token ∈ words, token.kind ≠ .endOfInput)
      ∧ ∀ back, tokenize (front ++ '\n' :: back) file
        = (outcomeMoved (Position.shift (byteLength front + 1)) (tokenize back file)).map (words ++ ·) := by
  obtain ⟨words, htokens, hinside, hline⟩ := (lexed_of_tokenize h).append_line
  rw [Nat.zero_add] at htokens
  refine ⟨words, htokens, hinside, fun back => ?_⟩
  obtain ⟨result, hback⟩ := exists_lexed file 0 back
  rw [hback.tokenize_eq]
  exact (hline (hback.shift _)).tokenize_eq

/-- Behind a text that can be read and a line feed, another text is read as it is by itself, further on by the
bytes in front of it. Its tokens, with their end of input, take the place of the end of input of the first text,
and if it fails, both texts together fail in the same way. -/
theorem tokenize_joined {tokens : List Token} (h : tokenize front file = .ok tokens) (back : List Char) :
    tokens = tokens.dropLast ++ [.endOfInput (.empty (.atByte (byteLength front) file))]
      ∧ (∀ token ∈ tokens.dropLast, token.kind ≠ .endOfInput)
      ∧ tokenize (front ++ '\n' :: back) file = match tokenize back file with
        | .ok others => .ok (tokens.dropLast ++ others.map (Token.moved (.shift (byteLength front + 1))))
        | .error f => .error (f.moved (.shift (byteLength front + 1))) := by
  obtain ⟨words, rfl, hinside, hline⟩ := tokenize_append_line h
  rw [List.dropLast_concat]
  refine ⟨rfl, hinside, ?_⟩
  rw [hline back]
  cases tokenize back file <;> rfl

/-- A text that ends in a line comment, with one behind it that can be read and with one that cannot: the tokens of
the one and the failure of the other are further on by the first line. -/
theorem tokenize_joined_of_comment :
    let front := ['a', '/', '/', '1']
    let word : Token := ⟨.identifier, "a", ⟨.atByte 0 "f", .atByte 1 "f"⟩⟩
    let tokens := [word, .endOfInput (.empty (.atByte 4 "f"))]
    tokenize front "f" = .ok tokens
      ∧ tokenize ['b'] "f"
        = .ok [⟨.identifier, "b", ⟨.atByte 0 "f", .atByte 1 "f"⟩⟩, .endOfInput (.empty (.atByte 1 "f"))]
      ∧ tokenize (front ++ '\n' :: ['b']) "f"
        = .ok [word, ⟨.identifier, "b", ⟨.atByte 5 "f", .atByte 6 "f"⟩⟩, .endOfInput (.empty (.atByte 6 "f"))]
      ∧ tokenize ['b', '$'] "f" = .error ⟨.unrecognisedToken "$", .atByte 1 "f"⟩
      ∧ tokenize (front ++ '\n' :: ['b', '$']) "f" = .error ⟨.unrecognisedToken "$", .atByte 6 "f"⟩ := by
  intro front word tokens
  have hfront : tokenize front "f" = .ok tokens := by decide +kernel
  have hread : tokenize ['b'] "f"
      = .ok [⟨.identifier, "b", ⟨.atByte 0 "f", .atByte 1 "f"⟩⟩, .endOfInput (.empty (.atByte 1 "f"))] := by
    decide +kernel
  have hfailed : tokenize ['b', '$'] "f" = .error ⟨.unrecognisedToken "$", .atByte 1 "f"⟩ := by decide +kernel
  obtain ⟨-, -, hjoined⟩ := tokenize_joined hfront ['b']
  obtain ⟨-, -, hjoined'⟩ := tokenize_joined hfront ['b', '$']
  rw [hread] at hjoined
  rw [hfailed] at hjoined'
  exact ⟨hfront, hread, hjoined, hfailed, hjoined'⟩

end WattFront
