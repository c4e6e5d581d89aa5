import WattFront.Proofs.Token.Seam
import WattFront.Proofs.Token.Standing

/-! # Texts cut out at tokens

A piece of a text that starts where a token starts and ends where a token ends is read like the text: it has the
same tokens there, back by the bytes in front of the piece. No token is longer because of what stands behind it,
so none of them changes when that is cut off.

* `Lexed.exists_first` — the first token of a text, with what is skipped in front of it;
* `Lexed.drop_front`, `Lexed.keep_front` — texts cut off in front of tokens and behind them;
* `Lexed.tokenize_back` — a piece of a text that is read by itself;
* `Span.Cuts.unique` — the text under a span;
* `exists_cut` — the text under the span of tokens in a row, with its own tokens.
-/

namespace WattFront

def Position.back (count : UInt32) (p : Position) : Position :=
  ⟨p.offset - count, p.file⟩

theorem Position.back_shift (count : Nat) (p : Position) : (p.shift count).back (.ofNat count) = p := by
  rw [shift, back, UInt32.add_sub_cancel]

theorem Token.back_shift (count : Nat) (token : Token) :
    (token.moved (.shift count)).moved (.back (.ofNat count)) = token := by
  simp only [Token.moved, Span.moved, Position.back_shift]

variable {file : String} {offset : Nat} {text rest more : List Char} {front core others tokens : List Token}
  {token : Token}

/-! ## The text under a span -/

theorem append_inj_of_byteLength {as bs cs ds : List Char} (h : as ++ bs = cs ++ ds)
    (hlength : byteLength as = byteLength cs) : as = cs ∧ bs = ds := by
  have hbs := dropBytes?_append as bs
  rw [h, hlength, dropBytes?_append] at hbs
  obtain rfl := Option.some.inj hbs
  exact ⟨List.append_cancel_right h, rfl⟩

/-- The start and the stop of a span settle the text under it. -/
theorem Span.Cuts.unique {s : Span} {source text text' : List Char} (h : s.Cuts source text)
    (h' : s.Cuts source text') : text' = text := by
  obtain ⟨front, back, rfl, hstart, hstop⟩ := h
  obtain ⟨front', back', hsource, hstart', hstop'⟩ := h'
  obtain ⟨rfl, hrest⟩ := append_inj_of_byteLength hsource (hstart.symm.trans hstart')
  rw [byteLength_append] at hstop hstop'
  exact (append_inj_of_byteLength hrest (by omega)).1.symm

/-! ## Elements in front of a shorter text -/

theorem MaximalRun.of_append {p : Char → Bool} (h : MaximalRun p text (rest ++ more)) :
    MaximalRun p text rest where
  nonempty := h.nonempty
  all := h.all
  maximal c member := h.maximal c (List.mem_head?_append_of_mem_head? member)

/-- An element stays one if something is cut off at the end of the text behind it. -/
theorem Element.of_append {token? : Option (TokenKind × String)} (h : Element text (rest ++ more) token?) :
    Element text rest token? := by
  have hstarts {start text : List Char} (h : start <+: text ++ rest) : start <+: text ++ (rest ++ more) :=
    h.trans (by rw [← List.append_assoc]; exact List.prefix_append _ _)
  cases h with
  | blank hrun => exact .blank hrun.of_append
  | lineComment hbody hrest =>
    exact .lineComment hbody fun c member => hrest c (List.mem_head?_append_of_mem_head? member)
  | blockComment hfirst => exact .blockComment hfirst
  | word hrun hstart hkind => exact .word hrun.of_append hstart hkind
  | number hrun hrange => exact .number hrun.of_append hrange
  | string hbody => exact .string hbody
  | mark hkind hlongest hline hblock =>
    exact .mark hkind (fun other hother h => hlongest other hother (hstarts h)) (fun h => hline (hstarts h))
      fun h => hblock (hstarts h)

/-! ## Texts cut at tokens -/

/-- The first token of a text is that of an element of the text, and what stands in front of the element is
skipped. -/
theorem Lexed.exists_first (h : Lexed file offset text (.ok (token :: tokens)))
    (hinside : token.kind ≠ .endOfInput) :
    ∃ gap word rest, text = gap ++ (word ++ rest) ∧ Element word rest (some (token.kind, token.value))
      ∧ token.span = ⟨.atByte (offset + byteLength gap) file, .atByte (offset + byteLength (gap ++ word)) file⟩
      ∧ Lexed file (offset + byteLength (gap ++ word)) rest (.ok tokens) := by
  generalize hresult : Except.ok (token :: tokens) = outcome at h
  induction h with
  | done =>
    cases hresult
    exact absurd rfl hinside
  | @skipped offset text rest outcome _ _ ih =>
    obtain ⟨gap, word, rest, rfl, helement, hspan, hrest⟩ := ih hresult
    refine ⟨text ++ gap, word, rest, (List.append_assoc ..).symm, helement, ?_, ?_⟩
    · simpa [Nat.add_assoc] using hspan
    · simpa [Nat.add_assoc] using hrest
  | @token offset text rest kind value outcome helement hrest _ =>
    cases outcome with
    | error => cases hresult
    | ok others =>
      cases hresult
      exact ⟨[], text, rest, rfl, helement, rfl, hrest⟩
  | failed => cases hresult

/-- What is behind the first tokens of a text starts at the next token. -/
theorem Lexed.drop_front (h : Lexed file offset text (.ok (front ++ token :: tokens)))
    (hinside : ∀ t ∈ front ++ [token], t.kind ≠ .endOfInput) :
    ∃ before rest, text = before ++ rest ∧ token.span.start = .atByte (offset + byteLength before) file
      ∧ Lexed file (offset + byteLength before) rest (.ok (token :: tokens)) := by
  induction front generalizing offset text with
  | nil =>
    obtain ⟨gap, word, rest, rfl, helement, hspan, hrest⟩ := h.exists_first (hinside token (by simp))
    refine ⟨gap, word ++ rest, rfl, by rw [hspan], ?_⟩
    rw [byteLength_append, ← Nat.add_assoc] at hspan hrest
    obtain ⟨kind, value, span⟩ := token
    obtain rfl : span = _ := hspan
    exact .token helement hrest
  | cons first front ih =>
    obtain ⟨gap, word, rest, rfl, -, -, hrest⟩ := h.exists_first (hinside first (by simp))
    obtain ⟨before, rest, rfl, hstart, hbehind⟩ :=
      ih hrest fun t member => hinside t (List.mem_cons_of_mem _ member)
    refine ⟨gap ++ word ++ before, rest, by simp, ?_, ?_⟩
    · rw [hstart, byteLength_append (gap ++ word), Nat.add_assoc]
    · rwa [byteLength_append (gap ++ word), ← Nat.add_assoc]

/-- The front of a text up to the stop of a token has the tokens up to that one. -/
theorem Lexed.keep_front (h : Lexed file offset text (.ok (core ++ others))) (hne : core ≠ [])
    (hinside : ∀ t ∈ core, t.kind ≠ .endOfInput) :
    ∃ piece rest, text = piece ++ rest
      ∧ (Span.cover core).stop = .atByte (offset + byteLength piece) file
      ∧ Lexed file offset piece (.ok (core ++ [.endOfInput (.empty (.atByte (offset + byteLength piece) file))])) := by
  generalize hresult : Except.ok (core ++ others) = outcome at h
  induction h generalizing core with
  | done =>
    obtain ⟨first, core, rfl⟩ := List.exists_cons_of_ne_nil hne
    obtain ⟨rfl, -⟩ := List.cons.inj (Except.ok.inj hresult)
    exact absurd rfl (hinside _ List.mem_cons_self)
  | @skipped offset text rest outcome helement _ ih =>
    obtain ⟨piece, rest, rfl, hstop, hpiece⟩ := ih hne hinside hresult
    refine ⟨text ++ piece, rest, (List.append_assoc ..).symm, ?_, ?_⟩
    · rw [hstop, byteLength_append, Nat.add_assoc]
    · rw [byteLength_append, ← Nat.add_assoc]
      exact .skipped helement.of_append hpiece
  | @token offset text rest kind value outcome helement _ ih =>
    cases outcome with
    | error => cases hresult
    | ok tokens =>
      obtain ⟨first, core, rfl⟩ := List.exists_cons_of_ne_nil hne
      obtain ⟨rfl, rfl⟩ : first = _ ∧ core ++ others = tokens := by simpa [Except.map] using hresult
      cases core with
      | nil =>
        refine ⟨text, rest, rfl, rfl, ?_⟩
        have hlast : Element text ([] ++ rest) (some (kind, value)) := helement
        have hdone : Lexed file (offset + byteLength text) [] _ := .done
        have hpiece := Lexed.token hlast.of_append hdone
        rwa [List.append_nil] at hpiece
      | cons second core =>
        obtain ⟨piece, rest, rfl, hstop, hpiece⟩ :=
          ih (List.cons_ne_nil _ _) (fun t member => hinside t (List.mem_cons_of_mem _ member)) rfl
        refine ⟨text ++ piece, rest, (List.append_assoc ..).symm, ?_, ?_⟩
        · rw [byteLength_append, ← Nat.add_assoc, ← hstop, Span.cover_cons, Span.cover_cons, List.getLastD_cons]
        · rw [byteLength_append, ← Nat.add_assoc]
          exact .token helement.of_append hpiece
  | failed => cases hresult

/-- A text that is read by itself has its tokens back by what stood in front of it. -/
theorem Lexed.tokenize_back (h : Lexed file offset text (.ok tokens)) :
    tokenize text file = .ok (tokens.map (Token.moved (.back (.ofNat offset)))) := by
  obtain ⟨outcome, houtcome⟩ := exists_lexed file 0 text
  have hshift := houtcome.shift offset
  rw [Nat.zero_add] at hshift
  rw [houtcome.tokenize_eq]
  have hsame := hshift.unique h
  cases outcome with
  | error => cases hsame
  | ok others =>
    obtain rfl : others.map (Token.moved (.shift offset)) = tokens := Except.ok.inj hsame
    rw [List.map_map]
    exact congrArg Except.ok (List.map_id'' (fun token => token.back_shift offset) others).symm

/-- Tokens in a row somewhere in a text stand in a piece of the text, which by itself has no others. -/
theorem Lexed.exists_piece (h : Lexed file offset text (.ok (front ++ (core ++ others)))) (hne : core ≠ [])
    (hinside : ∀ t ∈ front ++ core, t.kind ≠ .endOfInput) :
    ∃ before piece behind, text = before ++ (piece ++ behind)
      ∧ Span.cover core
        = ⟨.atByte (offset + byteLength before) file, .atByte (offset + byteLength (before ++ piece)) file⟩
      ∧ Lexed file (offset + byteLength before) piece
        (.ok (core ++ [.endOfInput (.empty (.atByte (offset + byteLength (before ++ piece)) file))])) := by
  obtain ⟨first, rest, rfl⟩ := List.exists_cons_of_ne_nil hne
  obtain ⟨before, text, rfl, hstart, hbehind⟩ :=
    h.drop_front fun t member => hinside t (by simp at member ⊢; tauto)
  obtain ⟨piece, behind, rfl, hstop, hpiece⟩ :=
    hbehind.keep_front hne fun t member => hinside t (List.mem_append_right _ member)
  refine ⟨before, piece, behind, rfl, ?_, ?_⟩
  · rw [byteLength_append, ← Nat.add_assoc, ← hstop, ← hstart]
    rfl
  · rwa [byteLength_append, ← Nat.add_assoc]

/-- Tokens in a row of a text are those of the text under their span, back by the bytes in front of it. -/
theorem exists_cut {source : List Char} (h : tokenize source file = .ok (front ++ (core ++ others)))
    (hsize : byteLength source < 2 ^ 32) (hne : core ≠ []) (hinside : ∀ t ∈ front ++ core, t.kind ≠ .endOfInput) :
    ∃ piece, (Span.cover core).Cuts source piece
      ∧ tokenize piece file = .ok ((core ++ [Token.endOfInput (.empty (Span.cover core).stop)]).map
        (Token.moved (.back (Span.cover core).start.offset))) := by
  obtain ⟨before, piece, behind, rfl, hcover, hpiece⟩ := (lexed_of_tokenize h).exists_piece hne hinside
  rw [Nat.zero_add, Nat.zero_add] at hcover hpiece
  rw [hcover]
  simp only [byteLength_append] at hsize
  refine ⟨piece, ⟨before, behind, rfl, ?_, ?_⟩, hpiece.tokenize_back⟩
  · exact Position.toNat_atByte (by omega) file
  · exact Position.toNat_atByte (by simp only [byteLength_append]; omega) file

end WattFront
