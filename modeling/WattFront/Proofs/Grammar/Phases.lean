import WattFront.Proofs.Grammar.Diagnosis
import WattFront.Proofs.Token.Excerpt

/-! # Tokens come first

A text is read in two phases: it is cut into tokens as a whole, and only then its tokens are read. So where no token
can be read, that is what a text fails for, even if the tokens in front of that place are no beginning of a program.
What is wrong with them is nevertheless settled: it is the failure of every text that starts with the same tokens and
can be cut into tokens as a whole, of the front of the text in the first place.

* `tokensRead` — the tokens that are read until there is no further one;
* `Lexed.exists_front` — they are the tokens of the front of the text;
* `Program.ofSource_of_unreadable` — the result.
-/

namespace WattFront

open Grammar

variable {source text : List Char} {file : String} {g : Failure}

/-! ## The tokens in front of a failure -/

/-- The tokens of the rest of a text, which starts at `place`, until the text is over or no element stands there. -/
def tokensReadFrom (place : Place) (text : List Char) : List Token :=
  match text with
  | [] => []
  | c :: cs =>
    match _h : Lexeme.first c cs with
    | .error _ => []
    | .ok l => (l.tokenAt? place).toList ++ tokensReadFrom (place.advance (byteLength l.text)) l.rest
termination_by text.length
decreasing_by exact Lexeme.rest_lt_of_first ‹_›

def tokensRead (source : List Char) (file : String) : List Token :=
  tokensReadFrom (.origin file) source

theorem tokensReadFrom_of_element {place : Place} {rest : List Char} {token? : Option (TokenKind × String)}
    (h : Element text rest token?) :
    tokensReadFrom place (text ++ rest)
      = (Lexeme.tokenAt? ⟨token?, text, rest⟩ place).toList
        ++ tokensReadFrom (place.advance (byteLength text)) rest := by
  obtain ⟨c, tail, rfl⟩ := List.exists_cons_of_ne_nil h.nonempty
  have hfirst : Lexeme.first c (tail ++ rest) = .ok ⟨token?, c :: tail, rest⟩ := Lexeme.first_of_element h rfl
  rw [List.cons_append, tokensReadFrom]
  split
  · next hother => rw [hfirst] at hother; cases hother
  · next hother =>
    rw [hfirst] at hother
    cases hother
    rfl

theorem tokensReadFrom_of_none {place : Place} {c : Char} {cs : List Char}
    (hnone : ∀ text rest token?, text ++ rest = c :: cs → ¬ Element text rest token?) :
    tokensReadFrom place (c :: cs) = [] := by
  have hfirst : Lexeme.first c cs = .error (failureAt c cs) := Lexeme.first_eq_error_iff.2 ⟨hnone, rfl⟩
  rw [tokensReadFrom]
  split
  · rfl
  · next hother => rw [hfirst] at hother; cases hother

/-- A text that cannot be cut into tokens as a whole can be as far as the place where it fails, and the tokens that
are read are those of this front. -/
theorem Lexed.exists_front {offset : Nat} (h : Lexed file offset text (.error g)) :
    ∃ front c cs, text = front ++ c :: cs
      ∧ (∀ text rest token?, text ++ rest = c :: cs → ¬ Element text rest token?)
      ∧ g = ⟨failureAt c cs, .atByte (offset + byteLength front) file⟩
      ∧ Lexed file offset front (.ok (tokensReadFrom ⟨offset, file⟩ text
          ++ [.endOfInput (.empty (.atByte (offset + byteLength front) file))])) := by
  -- An element of the whole text is one of its front, since it lies in the front: by induction on the elements.
  generalize hresult : Except.error g = outcome at h
  induction h with
  | done => cases hresult
  | @skipped offset text rest outcome helement _ ih =>
    obtain ⟨front, c, cs, rfl, hnone, hg, hfront⟩ := ih hresult
    refine ⟨text ++ front, c, cs, (List.append_assoc ..).symm, hnone, ?_, ?_⟩
    · rw [hg, byteLength_append, Nat.add_assoc]
    · rw [tokensReadFrom_of_element helement, byteLength_append, ← Nat.add_assoc]
      exact .skipped helement.of_append hfront
  | @token offset text rest kind value outcome helement _ ih =>
    cases outcome with
    | ok tokens => cases hresult
    | error other =>
      cases hresult
      obtain ⟨front, c, cs, rfl, hnone, hg, hfront⟩ := ih rfl
      refine ⟨text ++ front, c, cs, (List.append_assoc ..).symm, hnone, ?_, ?_⟩
      · rw [hg, byteLength_append, Nat.add_assoc]
      · rw [tokensReadFrom_of_element helement, byteLength_append, ← Nat.add_assoc]
        exact .token helement.of_append hfront
  | @failed offset c cs hnone =>
    cases hresult
    refine ⟨[], c, cs, rfl, hnone, rfl, ?_⟩
    rw [tokensReadFrom_of_none hnone]
    exact .done

/-! ## Programs -/

/-- A text that cannot be cut into tokens as a whole fails for the first place where no element stands, whatever the
tokens in front of it are. If these are no beginning of a program, so that reading them fails at one of them, this is
the failure of every text that has them in front and can be cut into tokens as a whole: of the text up to the place
where no element stands, and of any text that goes on from there. -/
theorem Program.ofSource_of_unreadable (h : tokenize source file = .error g) :
    ofSource source file = .error g ∧ g.cause.category = .lexical
      ∧ ∃ front c cs, source = front ++ c :: cs
        ∧ (∀ text rest token?, text ++ rest = c :: cs → ¬ Element text rest token?)
        ∧ g = ⟨failureAt c cs, .atByte (byteLength front) file⟩
        ∧ tokenize front file
          = .ok (tokensRead source file ++ [.endOfInput (.empty (.atByte (byteLength front) file))])
        ∧ ∀ f stop, Grammar.items (.start (tokensRead source file) file) = .failed f stop →
          stop.index < (tokensRead source file).length →
          ofSource front file = .error f
            ∧ ∀ other rest, tokenize other file = .ok (tokensRead source file ++ rest) →
              ofSource other file = .error f := by
  obtain ⟨front, c, cs, hsource, hnone, hg, hfront⟩ := (lexed_of_tokenize h).exists_front
  rw [Nat.zero_add] at hg hfront
  have htokens := hfront.tokenize_eq
  have hother {f stop} (hfailed : Grammar.items (.start (tokensRead source file) file) = .failed f stop)
      (hstop : stop.index < (tokensRead source file).length) (other : List Char) (rest : List Token)
      (hread : tokenize other file = .ok (tokensRead source file ++ rest)) : ofSource other file = .error f := by
    rw [ofSource, hread]
    exact ofTokens_of_agree hfailed fun i hi => List.getElem?_append_left (Nat.lt_of_le_of_lt hi hstop)
  refine ⟨?_, ?_, front, c, cs, hsource, hnone, hg, htokens, fun f stop hfailed hstop => ?_⟩
  · rw [ofSource, h]
    rfl
  · rw [hg]
    exact failureAt_lexical c cs
  · exact ⟨hother hfailed hstop front _ htokens, hother hfailed hstop⟩

/-- Two tokens in front of a character that no token has, which fail at the second one. -/
theorem tokensRead_missing_name :
    let source := ['f', 'n', ' ', '1', ' ', '$']
    let fn : Token := ⟨.kwFn, "fn", ⟨.atByte 0 "shell", .atByte 2 "shell"⟩⟩
    let number : Token := ⟨.number, "1", ⟨.atByte 3 "shell", .atByte 4 "shell"⟩⟩
    tokenize source "shell" = .error ⟨.unrecognisedToken "$", .atByte 5 "shell"⟩
      ∧ tokensRead source "shell" = [fn, number]
      ∧ items (.start [fn, number] "shell") = .failed ⟨.unexpectedToken "identifier" "1", .atByte 3 "shell"⟩
        ⟨[fn], [number], .empty (.atByte 4 "shell"), "shell", 0⟩ :=
  ⟨by decide +kernel, by decide +kernel, rfl⟩

/-- A function without a name, and a character that no token has: the name is missing as soon as there is something
else in place of the character. -/
theorem Program.ofSource_of_unreadable_of_missing_name :
    let source := ['f', 'n', ' ', '1', ' ', '$']
    let other := ['f', 'n', ' ', '1', '.']
    let f : Failure := ⟨.unexpectedToken "identifier" "1", .atByte 3 "shell"⟩
    let g : Failure := ⟨.unrecognisedToken "$", .atByte 5 "shell"⟩
    tokenize source "shell" = .error g ∧ ofSource source "shell" = .error g
      ∧ (∃ stop, Grammar.items (.start (tokensRead source "shell") "shell") = .failed f stop
        ∧ stop.index < (tokensRead source "shell").length)
      ∧ (∃ rest, tokenize other "shell" = .ok (tokensRead source "shell" ++ rest))
      ∧ ofSource other "shell" = .error f := by
  intro source other f g
  obtain ⟨hsource, hread, hfailed⟩ := tokensRead_missing_name
  obtain ⟨hfirst, -, front, c, cs, -, -, -, -, hsettled⟩ := Program.ofSource_of_unreadable hsource
  have hother : tokenize other "shell" = .ok (tokensRead source "shell"
      ++ [⟨.dot, ".", ⟨.atByte 4 "shell", .atByte 5 "shell"⟩⟩, .endOfInput (.empty (.atByte 5 "shell"))]) := by
    decide +kernel
  rw [← hread] at hfailed
  have hstop : 1 < (tokensRead source "shell").length := by rw [hread]; decide
  obtain ⟨-, hbegun⟩ := hsettled f _ hfailed hstop
  exact ⟨hsource, hfirst, ⟨_, hfailed, hstop⟩, ⟨_, hother⟩, hbegun other _ hother⟩

/-- A failure of the tokens in front of the place where no element stands is not what the text fails for, even if it
is further in front. -/
theorem Program.ofSource_not_first :
    ¬ ∀ (source : List Char) (file : String) (f g : Failure) (stop : Cursor),
      tokenize source file = .error g →
      Grammar.items (.start (tokensRead source file) file) = .failed f stop →
      (∃ expected found, f.cause = .unexpectedToken expected found) →
      f.position.offset < g.position.offset →
      stop.index < (tokensRead source file).length →
      ofSource source file = .error f := by
  intro h
  obtain ⟨hsource, hread, hfailed⟩ := tokensRead_missing_name
  rw [← hread] at hfailed
  have hstop : 1 < (tokensRead ['f', 'n', ' ', '1', ' ', '$'] "shell").length := by rw [hread]; decide
  have hmissing := h _ _ _ _ _ hsource hfailed ⟨_, _, rfl⟩ (by decide) hstop
  rw [ofSource, hsource] at hmissing
  cases hmissing

end WattFront
