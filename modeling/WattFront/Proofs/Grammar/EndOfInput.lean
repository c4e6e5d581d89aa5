import WattFront.Proofs.Grammar.Truncation

/-! # The end of input

A program is read up to the first end of input in its token list. What stands behind that has no effect at all, and
a list that does not state its end of input is read like one that does. The only difference is where the end of
input stands: there the span of the program stops, and a failure at the end of input is there.

* `Program.SameInside` — what comes of two lists with the same tokens in front of their ends of input;
* `TapePair.ofInside` — a list, side by side with its tokens in front of the end of input;
* `Program.ofTokens_inside` — the result.
-/

namespace WattFront

open Grammar

variable {tokens : List Token} {file : String}

/-- What comes of two lists with the same words in front of their ends of input, which start at `stop` and `stop'`:
the same items, or the same failure at one of the words, or the same failure at the end of input, where each list
has its own. -/
inductive Program.SameInside (words : List Token) (file : String) (stop stop' : Position) :
    Except Failure Program → Except Failure Program → Prop
  | items (items : List Item) :
    SameInside words file stop stop' (.ok ⟨items, ⟨.origin file, stop⟩⟩) (.ok ⟨items, ⟨.origin file, stop'⟩⟩)
  | word {f : Failure} {t : Token} (hmem : t ∈ words) (hposition : f.position = t.span.start) :
    SameInside words file stop stop' (.error f) (.error f)
  | ending (cause : Failure.Cause) :
    SameInside words file stop stop' (.error ⟨cause, stop⟩) (.error ⟨cause, stop'⟩)

/-! ## The tokens in front of the end of input -/

theorem takeWhile_inside (tokens : List Token) :
    (tokens.takeWhile (·.kind ≠ .endOfInput)).takeWhile (·.kind ≠ .endOfInput)
      = tokens.takeWhile (·.kind ≠ .endOfInput) :=
  List.takeWhile_eq_self_iff.2 fun _ => List.mem_takeWhile_imp

/-- A token in front of the end of input is one of the words, and it is on the tape of the words at the same index. -/
theorem Cursor.start_at_inside {i : Nat} (hi : i < (tokens.takeWhile (·.kind ≠ .endOfInput)).length) :
    (start tokens file).tape.at i ∈ tokens.takeWhile (·.kind ≠ .endOfInput)
      ∧ (start (tokens.takeWhile (·.kind ≠ .endOfInput)) file).tape.at i = (start tokens file).tape.at i := by
  have hfront : tokens.takeWhile (·.kind ≠ .endOfInput) <+: tokens := List.takeWhile_prefix _
  have hlt : i < tokens.length := Nat.lt_of_lt_of_le hi hfront.length_le
  have hword : (tokens.takeWhile (·.kind ≠ .endOfInput))[i] = tokens[i] := hfront.getElem hi
  have htokens : (start tokens file).tape.at i = tokens[i] := by
    rw [start_at, tokenAt, List.getD_eq_getElem?_getD, List.getElem?_eq_getElem hlt, Option.getD_some]
  have hwords : (start (tokens.takeWhile (·.kind ≠ .endOfInput)) file).tape.at i
      = (tokens.takeWhile (·.kind ≠ .endOfInput))[i] := by
    rw [start_at, tokenAt, List.getD_eq_getElem?_getD, List.getElem?_eq_getElem hi, Option.getD_some]
  rw [htokens, hwords, ← hword]
  exact ⟨List.getElem_mem hi, rfl⟩

/-- Behind the words stands the end of input of their own list. -/
theorem Cursor.start_at_ending_inside (tokens : List Token) (file : String) :
    (start (tokens.takeWhile (·.kind ≠ .endOfInput)) file).tape.at (tokens.takeWhile (·.kind ≠ .endOfInput)).length
      = Spelling.ending (tokens.takeWhile (·.kind ≠ .endOfInput)) file := by
  have hending := start_at_ending (tokens.takeWhile (·.kind ≠ .endOfInput)) file
  rwa [takeWhile_inside] at hending

def TapePair.ofInside (tokens : List Token) (file : String) : TapePair where
  left := (Cursor.start tokens file).tape
  right := (Cursor.start (tokens.takeWhile (·.kind ≠ .endOfInput)) file).tape
  limit := (tokens.takeWhile (·.kind ≠ .endOfInput)).length
  alike := fun {i} hi => by
    rw [Nat.add_zero]
    rcases Nat.lt_or_eq_of_le hi with hi | rfl
    · rw [(Cursor.start_at_inside hi).2]
      exact .refl _
    · have hkind := Spelling.kind_ending tokens file
      rw [Cursor.start_at_ending, Cursor.start_at_ending_inside]
      exact ⟨by rw [Spelling.kind_ending, hkind], by rw [hkind]; exact nofun, by rw [hkind]; exact nofun⟩

/-- Two tokens at the same index are one word, or the ends of input of the two lists. -/
theorem TapePair.word_or_ending_of_related {t u : Token} (h : (ofInside tokens file).Related t u) :
    t ∈ tokens.takeWhile (·.kind ≠ .endOfInput) ∧ u = t
      ∨ t = Spelling.ending tokens file ∧ u = Spelling.ending (tokens.takeWhile (·.kind ≠ .endOfInput)) file := by
  obtain ⟨i, hi, rfl, rfl⟩ := h
  rcases Nat.lt_or_eq_of_le hi with hi | rfl
  · exact .inl (Cursor.start_at_inside hi)
  · exact .inr ⟨Cursor.start_at_ending tokens file, Cursor.start_at_ending_inside tokens file⟩

theorem Token.found_of_end {t : Token} (h : t.kind = .endOfInput) : t.found = "end of input" := by
  rw [found, h]

/-- Failures of the two lists that correspond are the same, or they are at the two ends of input. -/
theorem Failure.Matches.sameInside {f g : Failure} (h : f.Matches (TapePair.ofInside tokens file).Related g) :
    Program.SameInside (tokens.takeWhile (·.kind ≠ .endOfInput)) file (Spelling.ending tokens file).span.start
      (Spelling.ending (tokens.takeWhile (·.kind ≠ .endOfInput)) file).span.start (.error f) (.error g) := by
  cases h with
  | unexpectedToken expected h =>
    obtain ⟨hmem, rfl⟩ | ⟨rfl, rfl⟩ := TapePair.word_or_ending_of_related h
    · exact .word hmem rfl
    · rw [Token.found_of_end (Spelling.kind_ending _ _), Token.found_of_end (Spelling.kind_ending _ _)]
      exact .ending _
  | unexpectedEnd expected h | nestingTooDeep limit h =>
    obtain ⟨hmem, rfl⟩ | ⟨rfl, rfl⟩ := TapePair.word_or_ending_of_related h
    · exact .word hmem rfl
    · exact .ending _
  | numberOutOfRange h hkind =>
    obtain ⟨hmem, rfl⟩ | ⟨rfl, -⟩ := TapePair.word_or_ending_of_related h
    · exact .word hmem rfl
    · rw [Spelling.kind_ending] at hkind
      cases hkind

/-- Items that are spelled in front of the end of input of a list are spelled in front of any other. -/
theorem Spelling.Program.inside {p : WattFront.Program} (h : Spelling.Program tokens file p) :
    Spelling.Program (tokens.takeWhile (·.kind ≠ .endOfInput)) file
      ⟨p.items, ⟨.origin file, (Spelling.ending (tokens.takeWhile (·.kind ≠ .endOfInput)) file).span.start⟩⟩ := by
  have hkind := kind_ending (tokens.takeWhile (·.kind ≠ .endOfInput)) file
  have hends := Several.endsBefore (item_endsBefore (upTo_endsBefore maxNesting))
  have hstops : stopsItem (ending (tokens.takeWhile (·.kind ≠ .endOfInput)) file).kind = true
      ∧ insideProgram (ending (tokens.takeWhile (·.kind ≠ .endOfInput)) file).kind = false := by
    rw [hkind]
    exact ⟨rfl, rfl⟩
  obtain ⟨hitems, -⟩ := many_iff.1 h.items
  refine ⟨?_, rfl⟩
  rw [takeWhile_inside]
  exact many_iff.2 ⟨hends hitems hstops.1, hstops.2⟩

/-! ## What stands behind the end of input -/

/-- What comes of a token list, and where its program stops, is settled by where its items stop. -/
theorem Program.ofTokens_eq_result (tokens : List Token) (file : String) :
    ofTokens tokens file = (Grammar.items (.start tokens file)).result.map fun items =>
      ⟨items, ⟨.origin file, (tokenAt tokens file (Grammar.items (.start tokens file)).cursor.index).span.start⟩⟩ := by
  have hhere : (Grammar.items (.start tokens file)).cursor.here
      = (tokenAt tokens file (Grammar.items (.start tokens file)).cursor.index).span.start := by
    rw [Cursor.here, Cursor.current_eq, (items_stays tokens file).1, Cursor.start_at]
  rw [ofTokens, ← hhere]
  cases Grammar.items (.start tokens file) <;> rfl

/-- The first end of input is not behind any other one. -/
theorem length_inside_le {front rest : List Token} {last : Token} (h : last.kind = .endOfInput) :
    ((front ++ last :: rest).takeWhile (·.kind ≠ .endOfInput)).length ≤ front.length := by
  have hfront : (front.takeWhile (·.kind ≠ .endOfInput)).length ≤ front.length := (List.takeWhile_prefix _).length_le
  rw [List.takeWhile_append]
  split
  · simp [h]
  · exact hfront

/-- Two lists that agree up to an end of input, and in it, are read in the same way. -/
theorem Program.ofTokens_behind_end (front rest others : List Token) {last : Token} (h : last.kind = .endOfInput)
    (file : String) : ofTokens (front ++ last :: others) file = ofTokens (front ++ last :: rest) file := by
  have hagree : ∀ i ≤ front.length, (front ++ last :: others)[i]? = (front ++ last :: rest)[i]? := by
    intro i hi
    rcases Nat.lt_or_eq_of_le hi with hi | rfl
    · rw [List.getElem?_append_left hi, List.getElem?_append_left hi]
    · simp
  -- Reading the first list stops at this end of input at the latest, so it is read like the second one.
  have hstops : (Grammar.items (.start (front ++ last :: rest) file)).cursor.index ≤ front.length :=
    Nat.le_trans (items_stays _ file).2 (length_inside_le h)
  obtain ⟨hresult, hindex, -⟩ := Construct.items.isLocal (c := .start (front ++ last :: rest) file)
    (d := .start (front ++ last :: others) file) rfl rfl
    (fun i hi => Cursor.start_at_eq hagree (Nat.le_trans hi hstops))
  have htoken : (Cursor.start (front ++ last :: others) file).tape.at _
      = (Cursor.start (front ++ last :: rest) file).tape.at _ := Cursor.start_at_eq hagree hstops
  rw [Cursor.start_at, Cursor.start_at] at htoken
  rw [ofTokens_eq_result, ofTokens_eq_result, hresult, hindex, htoken]

/-! ## Programs -/

/-- The end of input only ends a program. A token list is read like its tokens in front of the first end of input:
both are programs with the same items, or both fail in the same way, at the same word, or each of them at its own end
of input. And what stands behind an end of input has no effect at all. -/
theorem Program.ofTokens_inside :
    (∀ (tokens : List Token) (file : String),
        let words := tokens.takeWhile (·.kind ≠ .endOfInput)
        SameInside words file (Spelling.ending tokens file).span.start (Spelling.ending words file).span.start
          (ofTokens tokens file) (ofTokens words file))
      ∧ ∀ (front rest others : List Token) (last : Token) (file : String), last.kind = .endOfInput →
        ofTokens (front ++ last :: others) file = ofTokens (front ++ last :: rest) file := by
  refine ⟨?_, fun front rest others last file h => ofTokens_behind_end front rest others h file⟩
  intro tokens file words
  let w := TapePair.ofInside tokens file
  have hstep : w.InStep (.start tokens file) (.start words file) := ⟨rfl, rfl, rfl, rfl, Nat.zero_le _⟩
  have hmeets := TapePair.follows_items hstep (Nat.zero_le _)
  generalize hrun : Grammar.items (.start tokens file) = o at hmeets
  generalize hrun' : Grammar.items (.start words file) = o' at hmeets
  cases hmeets with
  | @done items _ c _ =>
    have hok : ofTokens tokens file = .ok ⟨items, ⟨.origin file, c.here⟩⟩ := by rw [ofTokens, hrun]
    have hspelled := ofTokens_eq_ok_iff.1 hok
    have hstop : c.here = (Spelling.ending tokens file).span.start := congrArg Span.stop hspelled.span
    rw [ofTokens_eq_ok_iff.2 hspelled.inside, hok, hstop]
    exact .items items
  | @failed f g c d hfg =>
    have hfailed : ofTokens tokens file = .error f := by rw [ofTokens, hrun]
    have hfailed' : ofTokens words file = .error g := by rw [ofTokens, hrun']
    rw [hfailed, hfailed']
    exact hfg.sameInside
  | beyond hbeyond => exact absurd (Cursor.kind_start_at tokens file) hbeyond.further

/-- A function without a name, with a token behind its end of input: each list fails at its own end of input. -/
theorem Program.ofTokens_inside_of_function :
    let first : Token := ⟨.kwFn, "fn", ⟨.atByte 0 "a", .atByte 2 "a"⟩⟩
    let last : Token := .endOfInput (.empty (.atByte 9 "a"))
    let name : Token := ⟨.identifier, "f", ⟨.atByte 12 "a", .atByte 13 "a"⟩⟩
    last.kind = .endOfInput
      ∧ ofTokens [first, last] "a" = .error ⟨.unexpectedEnd "identifier", .atByte 9 "a"⟩
      ∧ ofTokens [first] "a" = .error ⟨.unexpectedEnd "identifier", .atByte 2 "a"⟩
      ∧ ofTokens [first, last, name] "a" = ofTokens [first, last] "a"
      ∧ SameInside [first] "a" (.atByte 9 "a") (.atByte 2 "a") (ofTokens [first, last, name] "a")
        (ofTokens [first] "a") := by
  intro first last name
  obtain ⟨hinside, hbehind⟩ := Program.ofTokens_inside
  exact ⟨rfl, rfl, rfl, hbehind [first] [] [name] last "a" rfl, hinside [first, last, name] "a"⟩

end WattFront
