import WattFront.Proofs.Grammar.ParallelItems
import WattFront.Proofs.Grammar.ProgramForms

/-! # Kinds decide the structure

Two token lists with the same kinds are read in the same way, whatever names, strings and numbers they hold
and wherever their tokens stand: either both are programs of the same structure, or both fail at the token of
the same index with the same complaint. Only the word `impl` counts, and whether a number is in range.

So layout, comments, the name of the file and the choice of names, strings and numbers never change how a
program is read.
-/

namespace WattFront

variable {tokens others : List Token} {file file' : String}

/-- The token at an index of a token list. A list that does not state its end of input has it behind its last
token, where that one stops, or at the beginning of the file if there is no token. -/
def tokenAt (tokens : List Token) (file : String) (i : Nat) : Token :=
  tokens.getD i (.endOfInput (.empty ((tokens.getLast?.map (·.span.stop)).getD (.origin file))))

/-- A token list that states its end of input goes on behind the tokens in front of it. -/
theorem length_inside_lt (words : List Token) (s : Span) :
    ((words ++ [Token.endOfInput s]).takeWhile (·.kind ≠ .endOfInput)).length
      < (words ++ [Token.endOfInput s]).length := by
  have hfront : (words ++ [Token.endOfInput s]).takeWhile (·.kind ≠ .endOfInput) <+: words ++ [.endOfInput s] :=
    List.takeWhile_prefix _
  refine Nat.lt_of_le_of_ne hfront.length_le fun hlength => ?_
  have hall := List.takeWhile_eq_self_iff.1 (hfront.eq_of_length hlength)
  exact of_decide_eq_true (hall (.endOfInput s) (List.mem_append_right _ List.mem_cons_self)) rfl

/-- Two tokens stand at the same index of two token lists, up to the first end of input. -/
def SameIndex (tokens : List Token) (file : String) (others : List Token) (file' : String) (t u : Token) :
    Prop :=
  ∃ i ≤ (tokens.takeWhile (·.kind ≠ .endOfInput)).length, t = tokenAt tokens file i ∧ u = tokenAt others file' i

/-- Two programs are built in the same way from related tokens. Each starts at the beginning of its file and
reaches to where its end of input starts. -/
structure Program.Matches (T : Token → Token → Prop) (file file' : String) (p q : Program) : Prop where
  items : List.Forall₂ (Item.Matches T) p.items q.items
  start : p.span.start = .origin file ∧ q.span.start = .origin file'
  stop : ∃ t u, T t u ∧ t.kind = .endOfInput ∧ p.span.stop = t.span.start ∧ q.span.stop = u.span.start

namespace Cursor

theorem start_at (tokens : List Token) (file : String) (i : Nat) :
    (start tokens file).tape.at i = tokenAt tokens file i := by
  rw [Tape.at, tape, start, tokenAt, List.reverse_nil, List.nil_append]
  cases tokens.getLast? <;> rfl

/-- Tokens that are passed stay on the tape. -/
theorem Passes.tape_eq {c d : Cursor} {taken : List Token} (h : c.Passes taken d) : d.tape = c.tape := by
  rw [tape, tape, h.behind, h.ahead, h.ending, h.file, List.reverse_append, List.reverse_reverse,
    List.append_assoc]

theorem Passes.index_eq {c d : Cursor} {taken : List Token} (h : c.Passes taken d) :
    d.index = taken.length + c.index := by
  simp [index, h.behind]

/-- The tokens in front of the first end of input are followed by it. -/
theorem start_at_ending (tokens : List Token) (file : String) :
    (start tokens file).tape.at (tokens.takeWhile (·.kind ≠ .endOfInput)).length = Spelling.ending tokens file := by
  obtain ⟨d, hpass, hcurrent⟩ := start_passes tokens file
  have hindex : d.index = (tokens.takeWhile (·.kind ≠ .endOfInput)).length := hpass.index_eq
  rw [← hindex, ← hpass.tape_eq, ← d.current_eq, hcurrent]

theorem kind_start_at (tokens : List Token) (file : String) :
    ((start tokens file).tape.at (tokens.takeWhile (·.kind ≠ .endOfInput)).length).kind = .endOfInput := by
  rw [start_at_ending, Spelling.kind_ending]

end Cursor

theorem Token.Alike.endOfInput (s s' : Span) : (Token.endOfInput s).Alike (.endOfInput s') where
  kind := rfl
  number := fun hkind => by cases hkind
  word := fun hkind => by cases hkind

theorem tokenAt_alike (h : List.Forall₂ Token.Alike tokens others) (file file' : String) (i : Nat) :
    (tokenAt tokens file i).Alike (tokenAt others file' i) := by
  have hlength := h.length_eq
  by_cases hin : i < tokens.length
  · have hin' : i < others.length := hlength ▸ hin
    simpa [tokenAt, hin, hin'] using h.get hin hin'
  · have hin' : ¬ i < others.length := hlength ▸ hin
    simpa [tokenAt, hin, hin'] using Token.Alike.endOfInput _ _

def TapePair.ofLists (h : List.Forall₂ Token.Alike tokens others) (file file' : String) : TapePair where
  left := (Cursor.start tokens file).tape
  right := (Cursor.start others file').tape
  limit := (tokens.takeWhile (·.kind ≠ .endOfInput)).length
  alike := fun {i} _ => by
    rw [Cursor.start_at, Cursor.start_at]
    exact tokenAt_alike h file file' i

theorem TapePair.related_ofLists (h : List.Forall₂ Token.Alike tokens others) (file file' : String) :
    (ofLists h file file').Related = SameIndex tokens file others file' := by
  funext t u
  simp only [Related, SameIndex, ofLists, Cursor.start_at, Nat.add_zero]

/-- Two token lists that are alike are read in the same way: as programs of the same structure, or with
failures of the same kind at the tokens of the same index. -/
theorem Program.structure_of_kinds (h : List.Forall₂ Token.Alike tokens others) (file file' : String) :
    (∃ p q, ofTokens tokens file = .ok p ∧ ofTokens others file' = .ok q
        ∧ Program.Matches (SameIndex tokens file others file') file file' p q)
      ∨ ∃ f g, ofTokens tokens file = .error f ∧ ofTokens others file' = .error g
        ∧ f.Matches (SameIndex tokens file others file') g := by
  let w := TapePair.ofLists h file file'
  have hstep : w.InStep (.start tokens file) (.start others file') := ⟨rfl, rfl, rfl, rfl, Nat.zero_le _⟩
  have hmeets := TapePair.follows_items hstep (Nat.zero_le _)
  rw [← TapePair.related_ofLists h]
  generalize hrun : Grammar.items (.start tokens file) = o at hmeets
  generalize hrun' : Grammar.items (.start others file') = o' at hmeets
  cases hmeets with
  | @done items items' c d hitems hstep' =>
    have room : (Cursor.start tokens file).depth + maxNesting ≤ maxNesting := by simp [Cursor.start]
    obtain ⟨_, _, hmany⟩ := (Grammar.accepts_items trivial room items c).1 hrun
    have hend : c.kind = .endOfInput := by simpa [Grammar.insideProgram, Cursor.kind] using hmany.stops
    refine .inl ⟨⟨items, ⟨.origin file, c.here⟩⟩, ⟨items', ⟨.origin file', d.here⟩⟩, ?_, ?_, ?_⟩
    · rw [ofTokens, hrun]
    · rw [ofTokens, hrun']
    · exact ⟨hitems, ⟨rfl, rfl⟩, c.current, d.current, hstep'.current, hend, rfl, rfl⟩
  | @failed f g c d hfg =>
    refine .inr ⟨f, g, ?_, ?_, hfg⟩
    · rw [ofTokens, hrun]
    · rw [ofTokens, hrun']
  | beyond hbeyond =>
    -- The limit is at an end of input, and nothing goes past that.
    exact absurd (Cursor.kind_start_at tokens file) hbeyond.further

/-- A definition keeps its structure under another name, another number and another layout. -/
theorem Program.structure_of_kinds_of_renaming :
    let tokens : List Token := [⟨.identifier, "x", default⟩, ⟨.define, ":=", default⟩,
      ⟨.number, "1", ⟨.atByte 5 "a", .atByte 6 "a"⟩⟩]
    let others : List Token := [⟨.identifier, "size", default⟩, ⟨.define, ":=", default⟩,
      ⟨.number, "042", ⟨.atByte 9 "b", .atByte 12 "b"⟩⟩]
    let number : Expr := .number 1 ⟨.atByte 5 "a", .atByte 6 "a"⟩
    List.Forall₂ Token.Alike tokens others
      ∧ ofTokens tokens "a" = .ok ⟨[.statement (.define (.symbol "x" default) number
          ⟨default, .atByte 6 "a"⟩)], ⟨.origin "a", .atByte 6 "a"⟩⟩
      ∧ ((∃ p q, ofTokens tokens "a" = .ok p ∧ ofTokens others "b" = .ok q
            ∧ Program.Matches (SameIndex tokens "a" others "b") "a" "b" p q)
          ∨ ∃ f g, ofTokens tokens "a" = .error f ∧ ofTokens others "b" = .error g
            ∧ f.Matches (SameIndex tokens "a" others "b") g) :=
  have halike := .cons ⟨rfl, by decide, by decide⟩ (.cons ⟨rfl, by decide, by decide⟩
    (.cons ⟨rfl, by decide, by decide⟩ .nil))
  ⟨halike, rfl, Program.structure_of_kinds halike "a" "b"⟩

end WattFront
