import Mathlib.Data.List.TakeWhile
import WattFront.Proofs.Grammar.ItemForms

/-! # The reading of programs has its form

A program is read at the level of nesting of the file, where there is room for every level.
`ofTokens_eq_ok_iff` says that a token list is read as a program exactly if it spells that program.
-/

namespace WattFront

open Grammar Reading

variable {tokens : List Token} {file : String}

namespace Spelling

/-- Items end in front of a token that opens no further one. -/
theorem Many.stops {α : Type} {goesOn : TokenKind → Bool} {item : Form α} {next : Token}
    {as : List α} (h : Many goesOn item tokens next as) : goesOn next.kind = false := by
  induction h with
  | nil hnext => exact hnext
  | cons _ _ ih => exact ih

end Spelling

/-- The token that ends a token list is an end of input. -/
theorem Spelling.kind_ending (tokens : List Token) (file : String) :
    (Spelling.ending tokens file).kind = .endOfInput := by
  rw [Spelling.ending]
  have hhead := List.head?_dropWhile_not (fun token : Token => decide (token.kind ≠ .endOfInput)) tokens
  cases hrest : tokens.dropWhile (·.kind ≠ .endOfInput) with
  | nil => rfl
  | cons token rest =>
    rw [hrest] at hhead
    simpa using hhead

namespace Grammar

theorem atCursor_of_room {α : Type} {construct : Inner → Reading α} {c : Cursor}
    (room : c.depth + maxNesting ≤ maxNesting) : atCursor construct c = construct (nested maxNesting) c := by
  have hroom : c.room = maxNesting := by
    have hdepth : c.depth = 0 := by omega
    rw [Cursor.room, hdepth, Nat.sub_zero]
  rw [atCursor, hroom]

theorem accepts_items :
    items.Accepts maxNesting (Spelling.Many insideProgram (Spelling.Item (Spelling.upTo maxNesting))) := by
  apply accepts_many rfl item_opens
  intro c _ room i d
  rw [atCursor_of_room room]
  exact accepts_item (nested_spells maxNesting) trivial room i d

end Grammar

namespace Cursor

/-- The tokens in front of the first end of input can be passed. -/
theorem start_passes (tokens : List Token) (file : String) :
    ∃ d, (start tokens file).Passes (tokens.takeWhile (·.kind ≠ .endOfInput)) d
      ∧ d.current = Spelling.ending tokens file := by
  refine ⟨{ start tokens file with
    behind := (tokens.takeWhile (·.kind ≠ .endOfInput)).reverse
    ahead := tokens.dropWhile (·.kind ≠ .endOfInput) }, ?_, rfl⟩
  refine ⟨List.takeWhile_append_dropWhile.symm, (List.append_nil _).symm, ?_, rfl, rfl, rfl⟩
  intro token member
  simpa using List.mem_takeWhile_imp member

/-- Passing tokens up to an end of input is passing all tokens in front of the first one. -/
theorem Passes.of_start {taken : List Token} {d : Cursor} (h : (start tokens file).Passes taken d)
    (hend : d.kind = .endOfInput) :
    taken = tokens.takeWhile (·.kind ≠ .endOfInput) ∧ d.current = Spelling.ending tokens file := by
  have hahead : tokens = taken ++ d.ahead := h.ahead
  have hall : ∀ token ∈ taken, decide (token.kind ≠ .endOfInput) = true :=
    fun token member => decide_eq_true (h.inside token member)
  have hnone : d.ahead.takeWhile (·.kind ≠ .endOfInput) = []
      ∧ d.ahead.dropWhile (·.kind ≠ .endOfInput) = d.ahead := by
    rw [Cursor.kind, Cursor.current] at hend
    cases hrest : d.ahead with
    | nil => exact ⟨rfl, rfl⟩
    | cons token rest =>
      rw [hrest, List.headD_cons] at hend
      simp [hend]
  constructor
  · rw [hahead, List.takeWhile_append_of_pos hall, hnone.1, List.append_nil]
  · have hdrop : tokens.dropWhile (·.kind ≠ .endOfInput) = d.ahead := by
      rw [← hnone.2, hahead, List.dropWhile_append_of_pos hall, hnone.2]
    rw [Spelling.ending, hdrop, Cursor.current, h.ending]

end Cursor

namespace Program

/-- A token list is read as the program that it spells, and as no other. -/
theorem ofTokens_eq_ok_iff {p : Program} :
    ofTokens tokens file = .ok p ↔ Spelling.Program tokens file p := by
  have room : (Cursor.start tokens file).depth + maxNesting ≤ maxNesting := by simp [Cursor.start]
  rw [ofTokens]
  constructor
  · intro hok
    split at hok
    · next list d hdone =>
      obtain ⟨taken, hpass, hitems⟩ := (accepts_items trivial room list d).1 hdone
      have hend : d.kind = .endOfInput := by
        simpa [insideProgram, Cursor.kind] using hitems.stops
      obtain ⟨rfl, hcurrent⟩ := hpass.of_start hend
      cases hok
      rw [hcurrent] at hitems
      exact ⟨hitems, by rw [Cursor.here, hcurrent]⟩
    · cases hok
  · rintro ⟨hitems, hspan⟩
    obtain ⟨d, hpass, hcurrent⟩ := Cursor.start_passes tokens file
    rw [← hcurrent] at hitems
    have hdone := (accepts_items trivial room p.items d).2 ⟨_, hpass, hitems⟩
    simp only [hdone, Cursor.here, hcurrent, ← hspan]

/-- A program is read from a text exactly if it is read from the tokens of the text. -/
theorem ofSource_eq_ok_iff {source : List Char} {p : Program} :
    ofSource source file = .ok p ↔ ∃ tokens, tokenize source file = .ok tokens ∧ ofTokens tokens file = .ok p := by
  rw [ofSource]
  cases tokenize source file with
  | ok tokens =>
    constructor
    · exact fun h => ⟨tokens, rfl, h⟩
    · rintro ⟨_, ⟨rfl⟩, h⟩
      exact h
  | error failure =>
    constructor
    · exact nofun
    · rintro ⟨_, ⟨⟩, _⟩

end Program

/-- The words of a program in front of the end of input. -/
theorem Spelling.Program.of_words {words : List Token} {s : Span} {p : WattFront.Program}
    (h : Spelling.Program (words ++ [.endOfInput s]) file p)
    (hinside : ∀ token ∈ words, token.kind ≠ .endOfInput) :
    Many insideProgram (Item (upTo maxNesting)) words (.endOfInput s) p.items
      ∧ p.span = ⟨.origin file, s.start⟩ := by
  have hall : ∀ token ∈ words, decide (token.kind ≠ .endOfInput) = true :=
    fun token member => decide_eq_true (hinside token member)
  have hend : (Token.endOfInput s).kind = .endOfInput := rfl
  have htake : (words ++ [Token.endOfInput s]).takeWhile (·.kind ≠ .endOfInput) = words := by
    rw [List.takeWhile_append_of_pos hall]
    simp [hend]
  have hending : Spelling.ending (words ++ [.endOfInput s]) file = .endOfInput s := by
    rw [Spelling.ending, List.dropWhile_append_of_pos hall]
    simp [hend]
  obtain ⟨hitems, hspan⟩ := h
  rw [htake, hending] at hitems
  rw [hending] at hspan
  exact ⟨hitems, hspan⟩

end WattFront
