import WattFront.Proofs.Token.First
import WattFront.Token.Stream

/-! # A text falls into elements

Cutting a text into tokens takes the element at the front of the text, again and again, until the text is
over or no element stands at the front of what is left. `Lexed` says so without an algorithm, and
`tokenize_eq_iff` that `tokenize` finds the one outcome there is.
-/

namespace WattFront

/-- What comes out of the rest of a text that starts `offset` bytes into a file: its elements that are
tokens, each with the bytes it covers, and the end of input; or the failure where no element stands. -/
inductive Lexed (file : String) : Nat → List Char → Except Failure (List Token) → Prop
  | done {offset} :
    Lexed file offset [] (.ok [.endOfInput (.empty (.atByte offset file))])
  | skipped {offset text rest result} (helement : Element text rest none)
    (hrest : Lexed file (offset + byteLength text) rest result) :
    Lexed file offset (text ++ rest) result
  | token {offset text rest kind value result} (helement : Element text rest (some (kind, value)))
    (hrest : Lexed file (offset + byteLength text) rest result) :
    Lexed file offset (text ++ rest)
      (result.map (⟨kind, value, ⟨.atByte offset file, .atByte (offset + byteLength text) file⟩⟩ :: ·))
  | failed {offset c cs}
    (hnone : ∀ text rest token?, text ++ rest = c :: cs → ¬ Element text rest token?) :
    Lexed file offset (c :: cs) (.error ⟨failureAt c cs, .atByte offset file⟩)

variable {file : String} {offset : Nat} {place : Place} {read : List Token} {text : List Char}
  {result : Except Failure (List Token)} {c : Char} {cs : List Char}

theorem tokenizeFrom_of_ok {l : Lexeme} (h : Lexeme.first c cs = .ok l) :
    tokenizeFrom place read (c :: cs) =
      tokenizeFrom (place.advance (byteLength l.text)) ((l.tokenAt? place).toList ++ read) l.rest := by
  rw [tokenizeFrom]
  split
  · next hfirst =>
    rw [h] at hfirst
    cases hfirst
  · next hfirst =>
    rw [h] at hfirst
    cases hfirst
    rfl

theorem tokenizeFrom_of_error {cause : Failure.Cause} (h : Lexeme.first c cs = .error cause) :
    tokenizeFrom place read (c :: cs) = .error ⟨cause, place.position⟩ := by
  rw [tokenizeFrom]
  split
  · next hfirst =>
    rw [h] at hfirst
    cases hfirst
    rfl
  · next hfirst =>
    rw [h] at hfirst
    cases hfirst

/-- The element at the front of a text is what is cut off next. -/
theorem tokenizeFrom_of_element {rest : List Char} {token? : Option (TokenKind × String)}
    (h : Element text rest token?) :
    tokenizeFrom place read (text ++ rest) =
      tokenizeFrom (place.advance (byteLength text))
        ((Lexeme.tokenAt? ⟨token?, text, rest⟩ place).toList ++ read) rest := by
  obtain ⟨c, tail, rfl⟩ := List.exists_cons_of_ne_nil h.nonempty
  exact tokenizeFrom_of_ok (Lexeme.first_of_element h rfl)

/-- The outcome for a text is the one that reading it comes to, behind the tokens that were read in front
of the text. -/
theorem Lexed.tokenizeFrom_eq (h : Lexed file offset text result) :
    tokenizeFrom ⟨offset, file⟩ read text = result.map (read.reverse ++ ·) := by
  -- By induction on the outcome: what has been read is put in front of it at the end.
  induction h generalizing read with
  | done =>
    rw [tokenizeFrom, List.reverse_cons]
    rfl
  | skipped helement _ ih => exact (tokenizeFrom_of_element helement).trans ih
  | @token offset text rest kind value result helement _ ih =>
    rw [tokenizeFrom_of_element helement]
    refine ih.trans ?_
    cases result with
    | ok tokens => simp [Except.map, Lexeme.tokenAt?, Place.span, Place.advance, Place.position]
    | error failure => rfl
  | failed hnone => exact tokenizeFrom_of_error (Lexeme.first_eq_error_iff.2 ⟨hnone, rfl⟩)

/-- Every text has an outcome, since an element takes something off the text. -/
theorem exists_lexed (file : String) (offset : Nat) (text : List Char) :
    ∃ result, Lexed file offset text result := by
  induction hlength : text.length using Nat.strongRecOn generalizing offset text with
  | ind n ih =>
    cases text with
    | nil => exact ⟨_, .done⟩
    | cons c cs =>
      cases hfirst : Lexeme.first c cs with
      | error cause => exact ⟨_, .failed (Lexeme.first_eq_error_iff.1 hfirst).1⟩
      | ok l =>
        have hshorter : l.rest.length < n := hlength ▸ Lexeme.rest_lt_of_first hfirst
        obtain ⟨helement, happend⟩ := Lexeme.first_eq_ok_iff.1 hfirst
        obtain ⟨result, hrest⟩ := ih _ hshorter (offset + byteLength l.text) l.rest rfl
        rw [← happend]
        cases htoken : l.token? with
        | none => exact ⟨_, .skipped (htoken ▸ helement) hrest⟩
        | some token => exact ⟨_, .token (htoken ▸ helement) hrest⟩

/-- There is only one outcome, since reading comes to it. -/
theorem Lexed.unique {other : Except Failure (List Token)} (h : Lexed file offset text result)
    (h' : Lexed file offset text other) : result = other := by
  have hnothing (r : Except Failure (List Token)) : r.map ([].reverse ++ ·) = r := by
    cases r <;> rfl
  rw [← hnothing result, ← hnothing other, ← h.tokenizeFrom_eq, ← h'.tokenizeFrom_eq]

/-- A text whose outcome is a failure fails where no element stands. -/
theorem Lexed.exists_failure {f : Failure} (h : Lexed file offset text (.error f)) :
    ∃ front c cs, text = front ++ c :: cs ∧ f = ⟨failureAt c cs, .atByte (offset + byteLength front) file⟩ := by
  generalize hresult : Except.error f = outcome at h
  induction h with
  | done => cases hresult
  | @skipped offset text rest outcome _ _ ih =>
    obtain ⟨front, c, cs, rfl, rfl⟩ := ih hresult
    exact ⟨text ++ front, c, cs, (List.append_assoc ..).symm, by rw [byteLength_append, Nat.add_assoc]⟩
  | @token offset text rest kind value outcome _ _ ih =>
    cases outcome with
    | error g =>
      obtain ⟨front, c, cs, rfl, rfl⟩ := ih (Except.error.inj hresult ▸ rfl)
      cases hresult
      exact ⟨text ++ front, c, cs, (List.append_assoc ..).symm, by rw [byteLength_append, Nat.add_assoc]⟩
    | ok tokens => cases hresult
  | @failed offset c cs _ =>
    cases hresult
    exact ⟨[], c, cs, rfl, rfl⟩

/-- What is skipped at the front of a text adds nothing to the outcome. -/
theorem Lexed.skipped_iff {rest : List Char} (helement : Element text rest none) :
    Lexed file offset (text ++ rest) result ↔ Lexed file (offset + byteLength text) rest result := by
  constructor
  · intro h
    obtain ⟨outcome, hrest⟩ := exists_lexed file (offset + byteLength text) rest
    rwa [h.unique (.skipped helement hrest)]
  · exact .skipped helement

/-- Blank space in front of a text adds nothing to the outcome, whether or not more blank space follows. -/
theorem Lexed.blank_cons (hc : isBlank c = true)
    (h : Lexed file (offset + c.utf8Size) text result) : Lexed file offset (c :: text) result := by
  generalize hrun : text.takeWhile isBlank = run
  generalize hrest : text.dropWhile isBlank = rest
  have htext : run ++ rest = text := by rw [← hrun, ← hrest, List.takeWhile_append_dropWhile]
  have hmaximal : MaximalRun isBlank (c :: run) rest := by
    rw [← hrun, ← hrest]
    exact .takeWhile hc
  have hbehind : Lexed file (offset + c.utf8Size + byteLength run) rest result := by
    rw [← htext] at h
    cases run with
    | nil => exact h
    | cons d run =>
      have hall : ∀ e ∈ d :: run, isBlank e = true :=
        fun e member => hmaximal.all e (List.mem_cons_of_mem _ member)
      exact (Lexed.skipped_iff (.blank ⟨List.cons_ne_nil _ _, hall, hmaximal.maximal⟩)).1 h
  rw [← htext, ← List.cons_append, Lexed.skipped_iff (.blank hmaximal), byteLength_cons,
    ← Nat.add_assoc]
  exact hbehind

theorem Lexed.tokenize_eq {source : List Char} (h : Lexed file 0 source result) :
    tokenize source file = result := by
  rw [tokenize, Place.origin, h.tokenizeFrom_eq]
  cases result <;> rfl

theorem lexed_of_tokenize {source : List Char} (h : tokenize source file = result) :
    Lexed file 0 source result := by
  obtain ⟨outcome, houtcome⟩ := exists_lexed file 0 source
  rw [← h, houtcome.tokenize_eq]
  exact houtcome

/-- A text falls into elements in one way, and `tokenize` finds their tokens, or the first place where no
element stands. -/
theorem tokenize_eq_iff {source : List Char} :
    tokenize source file = result ↔ Lexed file 0 source result := by
  constructor
  · exact lexed_of_tokenize
  · exact Lexed.tokenize_eq

end WattFront
