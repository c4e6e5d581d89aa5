import WattFront.Proofs.Grammar.Soundness
import WattFront.Proofs.Tree.Unambiguous
import WattFront.Tree.Equality

/-! # What has been read is written down faithfully

The names and numbers of a program that was read from a text can be written, because the text holds a spelling
of each of them, and the program has the shape that can be written down. So its written form says which
program it is: `Program.ofSource_text_eq_iff`.
-/

namespace WattFront

/-- What a token with a spelling leaves in a tree can be written. -/
theorem Word.Spelled.writable {token : Token} (h : token.word.Spelled) :
    ∀ t ∈ token.trace?, t.Writable := by
  obtain ⟨kind, value, span⟩ := token
  intro t member
  rw [Option.mem_def] at member
  generalize hword : Token.word ⟨kind, value, span⟩ = w at h
  cases h with
  | @fixed kind' hfixed =>
    obtain rfl : kind = kind' := congrArg Word.kind hword
    have hall : ∀ kind ∈ TokenKind.keywords ++ TokenKind.marks, kind ≠ .identifier ∧ kind ≠ .number := by
      decide
    obtain ⟨hname, hnumber⟩ := hall kind hfixed
    rw [Token.trace?] at member
    split at member
    · next hkind => exact absurd hkind hname
    · next hkind => exact absurd hkind hnumber
    all_goals
      cases member
      try trivial
  | name hname =>
    cases hword
    cases member
    exact hname
  | number hne hdigits hrange =>
    cases hword
    have hfits : Numeral.toNat value.toList ≤ 2 ^ 63 - 1 := hrange
    obtain ⟨c, cs, htext⟩ := List.exists_cons_of_ne_nil hne
    have hvalue : Numeral.value? value.toList = some (Numeral.toNat value.toList : Int) := by
      rw [htext] at hdigits hfits ⊢
      rw [Numeral.value?_of_digits hdigits, if_pos hfits]
    simp only [Token.trace?, hvalue, Option.map_some, Option.some.injEq] at member
    rw [← member]
    exact ⟨Int.natCast_nonneg _, by omega⟩
  | string =>
    cases hword
    cases member
    trivial

namespace Program

variable {source : List Char} {file : String} {p : Program}

/-- The program that has been read from a text has the shape that can be written down, and so have its names
and numbers. -/
theorem written_of_ofSource (h : ofSource source file = .ok p) :
    p.shaped = true ∧ AllWritable p.traces := by
  obtain ⟨tokens, htokens, hread⟩ := ofSource_eq_ok_iff.1 h
  have hspelling := ofTokens_eq_ok_iff.1 hread
  have hitems : Form.Faithful (Spelling.Many Grammar.insideProgram _) _ _ :=
    Spelling.faithful_many (Spelling.faithful_item (Spelling.faithful_upTo maxNesting))
  refine ⟨hitems.shaped hspelling.items, ?_⟩
  rw [Program.traces, ← hitems.traces hspelling.items]
  intro t member
  obtain ⟨token, hinside, htrace⟩ := List.mem_filterMap.1 member
  have hkind : token.kind ≠ .endOfInput := by
    simpa using List.mem_takeWhile_imp hinside
  have hspelled := (spelled_of_tokenize htokens token (List.takeWhile_subset _ hinside)).resolve_left hkind
  exact hspelled.writable t htrace

/-- Two texts that are read as programs give programs that are written alike exactly if they are the same up
to spans. -/
theorem ofSource_text_eq_iff {source' : List Char} {file' : String} {q : Program}
    (h : ofSource source file = .ok p) (h' : ofSource source' file' = .ok q) :
    p.text = q.text ↔ p.bare = q.bare := by
  obtain ⟨hshaped, hwritable⟩ := written_of_ofSource h
  obtain ⟨hshaped', hwritable'⟩ := written_of_ofSource h'
  exact text_eq_iff hshaped hshaped' hwritable hwritable'

theorem ofSource_text_eq_iff_of_parameters :
    let p : Program := ⟨[.definition (.function ⟨⟨"f", ⟨.atByte 3 "a", .atByte 4 "a"⟩⟩, some [], none,
      ⟨.atByte 0 "a", .atByte 6 "a"⟩⟩)], ⟨.origin "a", .atByte 6 "a"⟩⟩
    let q : Program := ⟨[.definition (.function ⟨⟨"f", ⟨.atByte 3 "a", .atByte 4 "a"⟩⟩, none, none,
      ⟨.atByte 0 "a", .atByte 4 "a"⟩⟩)], ⟨.origin "a", .atByte 4 "a"⟩⟩
    ofSource ['f', 'n', ' ', 'f', '(', ')'] "a" = .ok p ∧ ofSource ['f', 'n', ' ', 'f'] "a" = .ok q
      ∧ (p.text = q.text ↔ p.bare = q.bare) := by
  intro p q
  have hread : ofSource ['f', 'n', ' ', 'f', '(', ')'] "a" = .ok p ∧ ofSource ['f', 'n', ' ', 'f'] "a" = .ok q :=
    ⟨by decide +kernel, by decide +kernel⟩
  exact ⟨hread.1, hread.2, ofSource_text_eq_iff hread.1 hread.2⟩

end Program

end WattFront
