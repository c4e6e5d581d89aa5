import WattFront.Proofs.Grammar.ResumingItems

/-! # The first token that cannot go on

A program that fails for want of a token stops at the first token that cannot go on with what stands in front
of it: what has been passed so far begins some program. So nothing was wrong in front of the token where the
program stops, and a program that ends too early can always be completed.

This needs room for one level more where the program fails, since what is missing there may be an expression or
a block. With all levels open, nothing could be put in for the body of a function, say.

* `Grammar.heldItems_resumes` — the items of a program can be mended;
* `Grammar.kind_of_unexpectedEnd` — what ends too early has been read to its end;
* `Program.ofTokens_viable` — the result.
-/

namespace WattFront

open Grammar Reading

variable {tokens : List Token} {file : String}

namespace Grammar

def stopIndex (tokens : List Token) (file : String) : Nat :=
  (items (.start tokens file)).cursor.index

theorem accepts_heldItem : heldItem.Accepts maxNesting (Spelling.Item (Spelling.upTo maxNesting)) :=
  Holds.accepts accepts_topItem

theorem resumes_heldItem : heldItem.ResumesAt (insideProgram · = true) maxNesting
    (Spelling.Item (Spelling.upTo maxNesting)) (fun _ => True) (stopsItem · = true) := by
  intro c d failure _ room hfailed hmisses
  have hroom : c.room = maxNesting := by
    rw [Cursor.room]
    omega
  have hinner : (heldOpen maxNesting).Resumes (Spelling.upTo maxNesting) maxNesting := heldOpen_resumes 127
  rw [heldItem, hroom] at hfailed
  exact (resumes_item hinner).resumes trivial room hfailed hmisses

theorem heldItems_resumes : heldItems.Resumes maxNesting
    (Spelling.Many insideProgram (Spelling.Item (Spelling.upTo maxNesting)))
    (fun kind => stopsItem kind = true ∧ insideProgram kind = false)
    fun kind => stopsItem kind = true ∧ insideProgram kind = false :=
  .many resumes_heldItem accepts_heldItem.at item_opens
    (Spelling.item_endsBefore (Spelling.upTo_endsBefore maxNesting)) rfl rfl

/-- A program that ends too early has been read to its end. -/
theorem kind_of_unexpectedEnd {c stop : Cursor} {f : Failure} (room : c.depth + maxNesting ≤ maxNesting)
    (hfailed : items c = .failed f stop) (hcategory : f.cause.category = .unexpectedEnd) :
    stop.kind = .endOfInput := by
  obtain ⟨front, before, d, hfront, -, -, hitem⟩ := (items_eq_failed room).1 hfailed
  rw [atCursor_of_room (hfront.room room)] at hitem
  rcases item_rejects hitem with hrejects | ⟨-, rfl, -⟩
  · cases hrejects with
    | unexpected expected =>
      by_contra hkind
      rw [Cursor.unexpected, if_neg hkind] at hcategory
      cases hcategory
    | tooDeep => cases hcategory
    | badNumeral => cases hcategory
  · cases hcategory

end Grammar

/-- Words alone are followed by the end of input. -/
theorem Spelling.ending_of_inside {words : List Token} (hinside : ∀ token ∈ words, token.kind ≠ .endOfInput) :
    words.takeWhile (·.kind ≠ .endOfInput) = words ∧ (Spelling.ending words file).kind = .endOfInput := by
  have hall : ∀ token ∈ words, decide (token.kind ≠ .endOfInput) = true :=
    fun token member => decide_eq_true (hinside token member)
  exact ⟨List.takeWhile_eq_self_iff.2 hall, kind_ending words file⟩

/-- Where a program fails for want of a token, or because of a token that is out of place, what it has passed is
the beginning of some program, unless there is no room for one level more. If it fails for want of a token, that
is all of it. -/
theorem Program.ofTokens_viable {f : Failure} (herror : Program.ofTokens tokens file = .error f)
    (hcategory : f.cause.category = .unexpectedToken ∨ f.cause.category = .unexpectedEnd)
    (hlevels : levelsAtFailure tokens file < maxNesting) :
    (∃ more p, Program.ofTokens (tokens.take (stopIndex tokens file) ++ more) file = .ok p)
      ∧ (f.cause.category = .unexpectedEnd →
        tokens.take (stopIndex tokens file) = tokens.takeWhile (·.kind ≠ .endOfInput)) := by
  obtain ⟨stop, hfailed⟩ : ∃ stop, Grammar.items (.start tokens file) = .failed f stop := by
    rw [Program.ofTokens] at herror
    split at herror
    · cases herror
    · next hrun =>
      cases herror
      exact ⟨_, hrun⟩
  -- With its levels left open, the program fails in the same way, and it can be gone on with there.
  have hholds := items_holds.holds (.start tokens file)
  rw [levelsAtFailure] at hlevels
  rw [hfailed] at hholds
  generalize hheld : heldItems (.start tokens file) = o at hholds hlevels
  cases hholds with
  | @failed _ _ levels =>
    obtain ⟨taken, hreach, more, hinside, hmore⟩ :=
      heldItems_resumes.resumes trivial (Nat.zero_add _) hheld ⟨hcategory, hlevels⟩
    have hpass : (Cursor.start tokens file).Passes taken { stop with depth := 0 } := hreach
    have hindex : stopIndex tokens file = taken.length := by
      rw [stopIndex, hfailed]
      have hbehind : stop.behind = taken.reverse ++ [] := hpass.behind
      rw [Outcome.cursor, Cursor.index, hbehind, List.append_nil, List.length_reverse]
    have htake : tokens.take (stopIndex tokens file) = taken := by
      have hahead : tokens = taken ++ stop.ahead := hpass.ahead
      rw [hindex, hahead, List.take_left']
      rfl
    rw [htake]
    constructor
    · have hwords : ∀ token ∈ taken ++ more, token.kind ≠ .endOfInput := by
        intro token member
        rcases List.mem_append.1 member with member | member
        · exact hpass.inside token member
        · exact hinside token member
      obtain ⟨hwhole, hend⟩ : (taken ++ more).takeWhile (·.kind ≠ .endOfInput) = taken ++ more
          ∧ (Spelling.ending (taken ++ more) file).kind = .endOfInput := Spelling.ending_of_inside hwords
      have hstops : stopsItem (Spelling.ending (taken ++ more) file).kind = true
          ∧ insideProgram (Spelling.ending (taken ++ more) file).kind = false := by
        rw [hend]
        exact ⟨rfl, rfl⟩
      obtain ⟨⟨items, hitems⟩, -⟩ := hmore hstops
      exact ⟨more, ⟨items, _⟩, Program.ofTokens_eq_ok_iff.2 ⟨hwhole.symm ▸ hitems, rfl⟩⟩
    · intro hcause
      have hkind := kind_of_unexpectedEnd (Nat.le_of_eq (Nat.zero_add _)) hfailed hcause
      exact (hpass.of_start hkind).1

/-- A list that has not been closed can be gone on with in front of the word that is out of place. -/
theorem Program.ofTokens_viable_of_list :
    let tokens : List Token := [⟨.identifier, "x", default⟩, ⟨.define, ":=", default⟩, ⟨.openBracket, "[", default⟩,
      ⟨.number, "1", default⟩, ⟨.kwWhile, "while", default⟩]
    let f : Failure := ⟨.unexpectedToken "`]`" "while", default⟩
    ofTokens tokens "" = .error f ∧ levelsAtFailure tokens "" = 1 ∧ stopIndex tokens "" = 4
      ∧ ∃ more p, ofTokens (tokens.take 4 ++ more) "" = .ok p := by
  intro tokens f
  have herror : ofTokens tokens "" = .error f := by
    unfold tokens f
    rfl
  have hlevels : levelsAtFailure tokens "" = 1 := by
    unfold tokens
    rfl
  have hindex : stopIndex tokens "" = 4 := by
    unfold tokens
    rfl
  have hviable := Program.ofTokens_viable herror (.inl rfl) (by rw [hlevels]; decide)
  rw [hindex] at hviable
  exact ⟨herror, hlevels, hindex, hviable.1⟩

end WattFront
