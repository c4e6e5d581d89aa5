import WattFront.Proofs.Grammar.Rounds
import WattFront.Proofs.Grammar.Structure
import WattFront.Proofs.Token.Seam
import WattFront.Tree.Equality

/-! # Programs one behind the other

A program with a line feed and another text behind it is read like the two of them: first the items of the
program, each of them as before, then what comes of the other text, further on by what stands in front of it.
No item reaches into the next text, if that starts with a token that no item goes on with, and nothing is left
over from an item that the next one would notice.

* `Program.ofTokens_append` — the result for token lists, with `Program.ofTokens_eq_moved` for no tokens in front;
* `Program.ofSource_append_line` — the result for texts.
-/

namespace WattFront

open Grammar

/-- The tokens that start an item by themselves, and the end of input. None of them goes on with an item that
stands in front of it. -/
def Grammar.startsAfresh : List TokenKind :=
  [.endOfInput, .kwFn, .kwType, .kwTrait, .kwUnit, .kwImport, .kwReturn, .kwWhile, .kwIf, .kwFor, .kwNative]

theorem Grammar.stopsItem_of_startsAfresh {kind : TokenKind} (h : kind ∈ startsAfresh) : stopsItem kind = true := by
  have hall : ∀ kind ∈ startsAfresh, stopsItem kind = true := by decide
  exact hall kind h

variable {words tokens : List Token} {before : List Item} {file : String} {move : Position → Position}

theorem Token.Alike.moved (t : Token) (move : Position → Position) : t.Alike (t.moved move) :=
  ⟨rfl, fun _ => rfl, fun _ => Iff.rfl⟩

/-- Failures that speak of moved tokens differ by the move only. -/
theorem Failure.Matches.eq_moved {T : Token → Token → Prop} (hT : ∀ {t u}, T t u → u = t.moved move)
    {f f' : Failure} (h : f.Matches T f') : f' = f.moved move := by
  cases h with
  | unexpectedToken _ h | unexpectedEnd _ h | nestingTooDeep _ h | numberOutOfRange h =>
    rw [hT h]
    rfl

/-! ## Behind other tokens -/

def Cursor.behindOf (words others : List Token) (file : String) : Cursor :=
  { start (words ++ others) file with behind := words.reverse, ahead := others }

theorem Cursor.start_passes_behindOf (hinside : ∀ token ∈ words, token.kind ≠ .endOfInput)
    (others : List Token) (file : String) :
    (start (words ++ others) file).Passes words (behindOf words others file) :=
  ⟨rfl, (List.append_nil _).symm, hinside, rfl, rfl, rfl⟩

/-- Behind some words stands the token list, moved. -/
theorem Cursor.behindOf_at {i : Nat} (hi : i < tokens.length) :
    (behindOf words (tokens.map (Token.moved move)) file).tape.at (i + words.length)
      = ((start tokens file).tape.at i).moved move := by
  have hindex : (behindOf words (tokens.map (Token.moved move)) file).index = words.length := by
    simp [behindOf, index]
  rw [Nat.add_comm, ← hindex, at_add]
  simp [behindOf, Tape.at, tape, start, List.getD_eq_getElem?_getD, hi]

def TapePair.ofBehind (words : List Token) (move : Position → Position) (file : String)
    (hend : (tokens.takeWhile (·.kind ≠ .endOfInput)).length < tokens.length) : TapePair where
  left := (Cursor.start tokens file).tape
  right := (Cursor.behindOf words (tokens.map (Token.moved move)) file).tape
  limit := (tokens.takeWhile (·.kind ≠ .endOfInput)).length
  offset := words.length
  alike := fun {i} hi => by
    rw [Cursor.behindOf_at (Nat.lt_of_le_of_lt hi hend)]
    exact .moved _ move

section

variable (hend : (tokens.takeWhile (·.kind ≠ .endOfInput)).length < tokens.length)

theorem TapePair.moved_of_related {t u : Token} (h : (ofBehind words move file hend).Related t u) :
    u = t.moved move := by
  obtain ⟨i, hi, rfl, rfl⟩ := h
  exact Cursor.behindOf_at (Nat.lt_of_le_of_lt hi hend)

include hend

/-- What comes of a token list comes of it behind some words as well, moved like its tokens. -/
theorem Grammar.items_behindOf :
    (∃ list c d, items (.start tokens file) = .done list c
        ∧ items (.behindOf words (tokens.map (Token.moved move)) file) = .done (list.map (Item.moved move)) d
        ∧ d.here = move c.here)
      ∨ ∃ f c d, items (.start tokens file) = .failed f c
        ∧ items (.behindOf words (tokens.map (Token.moved move)) file) = .failed (f.moved move) d := by
  let w := TapePair.ofBehind words move file hend
  have hmoved {t u : Token} (h : w.Related t u) : u = t.moved move := TapePair.moved_of_related hend h
  have hstep : w.InStep (.start tokens file) (.behindOf words (tokens.map (Token.moved move)) file) :=
    ⟨rfl, rfl, by simp [Cursor.index, Cursor.start, Cursor.behindOf, w, TapePair.ofBehind], rfl, Nat.zero_le _⟩
  have hmeets := TapePair.follows_items hstep (Nat.zero_le _)
  generalize hrun : items (.start tokens file) = o at hmeets
  generalize hrun' : items (.behindOf words (tokens.map (Token.moved move)) file) = o' at hmeets
  cases hmeets with
  | @done list list' c d hlist hstep' =>
    have hitems : list' = list.map (Item.moved move) :=
      eq_map_of_forall₂ hlist fun _ _ _ hi => hi.eq_moved hmoved
    refine .inl ⟨list, c, d, rfl, by rw [hitems], ?_⟩
    rw [Cursor.here, hmoved hstep'.current]
    rfl
  | @failed f g c d hfg => exact .inr ⟨f, c, d, rfl, by rw [hfg.eq_moved hmoved]⟩
  | beyond hbeyond => exact absurd (Cursor.kind_start_at tokens file) hbeyond.further

/-- Behind words that spell items in front of it, a token list is read as it is by itself. -/
theorem Program.ofTokens_append (hinside : ∀ token ∈ words, token.kind ≠ .endOfInput)
    (hrow : Row words (Cursor.behindOf words (tokens.map (Token.moved move)) file).current before) :
    ofTokens (words ++ tokens.map (Token.moved move)) file = match ofTokens tokens file with
      | .ok q => .ok ⟨before ++ q.items.map (Item.moved move), ⟨.origin file, move q.span.stop⟩⟩
      | .error f => .error (f.moved move) := by
  have room : (Cursor.start (words ++ tokens.map (Token.moved move)) file).depth + maxNesting ≤ maxNesting := by
    simp [Cursor.start]
  have hpass := Cursor.start_passes_behindOf hinside (tokens.map (Token.moved move)) file
  rcases items_behindOf hend with ⟨list, c, d, hrun, hrun', hhere⟩ | ⟨f, c, d, hrun, hrun'⟩
  · have hall := (items_after_iff room hpass hrow).2 ⟨_, hrun', rfl⟩
    simp only [ofTokens, hrun, hall, hhere]
  · have hall := items_fail_after room hpass hrow hrun'
    simp only [ofTokens, hrun, hall]

end

/-- Tokens at other positions are read as the same program at these, or fail in the same way. -/
theorem Program.ofTokens_eq_moved (words : List Token) (s : Span) (move : Position → Position) (file : String) :
    ofTokens ((words ++ [Token.endOfInput s]).map (Token.moved move)) file
      = match ofTokens (words ++ [.endOfInput s]) file with
        | .ok p => .ok ⟨p.items.map (Item.moved move), ⟨.origin file, move p.span.stop⟩⟩
        | .error f => .error (f.moved move) := by
  have hnothing : Row []
      (Cursor.behindOf [] ((words ++ [Token.endOfInput s]).map (Token.moved move)) file).current [] := .nil
  exact ofTokens_append (length_inside_lt words s) (List.forall_mem_nil _) hnothing

/-! ## Behind another text -/

/-- A program with a line feed and another text behind it, which starts with a token that starts an item by
itself: its items come first, and then what comes of the other text, further on by the bytes in front of it. -/
theorem Program.ofSource_append_line {front back : List Char} {p : Program} {first : Token}
    {rest : List Token} (hfront : ofSource front file = .ok p) (hback : tokenize back file = .ok (first :: rest))
    (hfirst : first.kind ∈ startsAfresh) :
    ofSource (front ++ '\n' :: back) file = match ofSource back file with
      | .ok q => .ok ⟨p.items ++ q.items.map (Item.moved (.shift (byteLength front + 1))),
          ⟨.origin file, q.span.stop.shift (byteLength front + 1)⟩⟩
      | .error f => .error (f.moved (.shift (byteLength front + 1))) := by
  obtain ⟨tokens, htokens, hp⟩ := ofSource_eq_ok_iff.1 hfront
  obtain ⟨words, rfl, hinside, hline⟩ := tokenize_append_line htokens
  obtain ⟨others, hothers, hinside', -⟩ := tokenize_append_line hback
  -- The words of the first text spell its items, in front of the other text as well as at the end.
  have hitems := (Spelling.many_iff.1 ((ofTokens_eq_ok_iff.1 hp).of_words hinside).1).1
  have hends := (Spelling.item_endsBefore (Spelling.upTo_endsBefore maxNesting))
  have hrow : Row words (Cursor.behindOf words ((first :: rest).map (Token.moved
      (.shift (byteLength front + 1)))) file).current p.items :=
    Spelling.Several.endsBefore hends hitems (stopsItem_of_startsAfresh hfirst)
  have hend : ((first :: rest).takeWhile (·.kind ≠ .endOfInput)).length < (first :: rest).length := by
    have hall' : ∀ token ∈ others, decide (token.kind ≠ .endOfInput) = true :=
      fun token member => decide_eq_true (hinside' token member)
    rw [hothers, List.takeWhile_append_of_pos hall']
    simp [Token.endOfInput]
  have happend := ofTokens_append hend hinside hrow
  rw [ofSource, ofSource, hline, hback]
  exact happend

set_option maxRecDepth 1000 in
/-- A definition, and a function on the next line. -/
theorem Program.ofSource_append_line_of_two_items :
    let p : Program := ⟨[.statement (.define (.symbol "x" ⟨.atByte 0 "a", .atByte 1 "a"⟩)
      (.number 1 ⟨.atByte 3 "a", .atByte 4 "a"⟩) ⟨.atByte 0 "a", .atByte 4 "a"⟩)], ⟨.origin "a", .atByte 4 "a"⟩⟩
    let q : Program := ⟨[.definition (.function ⟨⟨"f", ⟨.atByte 3 "a", .atByte 4 "a"⟩⟩, none, none,
      ⟨.atByte 0 "a", .atByte 4 "a"⟩⟩)], ⟨.origin "a", .atByte 4 "a"⟩⟩
    ofSource ['x', ':', '=', '1'] "a" = .ok p ∧ ofSource ['f', 'n', ' ', 'f'] "a" = .ok q
      ∧ ofSource (['x', ':', '=', '1'] ++ '\n' :: ['f', 'n', ' ', 'f']) "a"
        = .ok ⟨p.items ++ q.items.map (Item.moved (.shift 5)), ⟨.origin "a", .atByte 9 "a"⟩⟩ := by
  intro p q
  have hread : ofSource ['x', ':', '=', '1'] "a" = .ok p ∧ ofSource ['f', 'n', ' ', 'f'] "a" = .ok q :=
    ⟨by decide +kernel, by decide +kernel⟩
  have htokens : tokenize ['f', 'n', ' ', 'f'] "a" = .ok [⟨.kwFn, "fn", ⟨.atByte 0 "a", .atByte 2 "a"⟩⟩,
      ⟨.identifier, "f", ⟨.atByte 3 "a", .atByte 4 "a"⟩⟩, .endOfInput (.empty (.atByte 4 "a"))] := by decide +kernel
  have happend := Program.ofSource_append_line hread.1 htokens (by decide)
  rw [hread.2] at happend
  exact ⟨hread.1, hread.2, happend⟩

end WattFront
