import WattFront.Proofs.Grammar.Complaint
import WattFront.Proofs.Grammar.Lookahead
import WattFront.Proofs.Grammar.Structure

/-! # Programs that are cut off

A program whose last tokens are missing fails where they are missed, if it fails at all: at the end of input,
with a complaint that more was needed, or that there is no room for what would be needed there.

The exception is an item that has been cut down to a bare chain, as a definition is in front of its sign. It
could stand on its own, but not at top level, and the complaint is about its first token.

* `Grammar.items_stays` — the items of a program are read up to the end of input, not past it;
* `Grammar.CutChain` — what is left of an item that has been cut down to a chain;
* `Program.ofTokens_take` — the result.
-/

namespace WattFront

open Grammar Reading

variable {tokens : List Token} {file : String} {k : Nat}

/-! ## Where the items of a program stop -/

theorem Grammar.items_stays (tokens : List Token) (file : String) :
    (items (.start tokens file)).cursor.tape = (Cursor.start tokens file).tape
      ∧ (items (.start tokens file)).cursor.index ≤ (tokens.takeWhile (·.kind ≠ .endOfInput)).length := by
  -- The list is read side by side with itself, and nothing is read past the end of input.
  have hsame : List.Forall₂ Token.Alike tokens tokens := List.forall₂_same.2 fun token _ => .refl token
  let w := TapePair.ofLists hsame file file
  have hstep : w.InStep (.start tokens file) (.start tokens file) := ⟨rfl, rfl, rfl, rfl, Nat.zero_le _⟩
  have hmeets := TapePair.follows_items hstep (Nat.zero_le _)
  generalize hrun : items (.start tokens file) = o at hmeets ⊢
  cases hmeets with
  | done _ hstep' => exact ⟨hstep'.left, hstep'.inside⟩
  | failed _ hstep' => exact ⟨hstep'.left, hstep'.inside⟩
  | beyond hbeyond => exact absurd (Cursor.kind_start_at tokens file) hbeyond.further

/-- Behind all tokens of a list stands the end of input. -/
theorem Cursor.at_end {c : Cursor} (h : c.index = c.tape.tokens.length) :
    c.ahead = [] ∧ c.current = .endOfInput c.ending := by
  have hahead : c.ahead = [] := by
    have hlength := c.length_tape
    exact List.eq_nil_of_length_eq_zero (by omega)
  exact ⟨hahead, by rw [Cursor.current, hahead]; rfl⟩

/-- A list that is cut off in front of its end of input does not state one. -/
theorem take_inside (hk : k ≤ (tokens.takeWhile (·.kind ≠ .endOfInput)).length) :
    tokens.take k = (tokens.takeWhile (·.kind ≠ .endOfInput)).take k
      ∧ (tokens.take k).takeWhile (·.kind ≠ .endOfInput) = tokens.take k := by
  have htake : tokens.take k = (tokens.takeWhile (·.kind ≠ .endOfInput)).take k := by
    have hfront := List.prefix_iff_eq_take.1 (List.takeWhile_prefix (·.kind ≠ .endOfInput) (l := tokens))
    rw [hfront, List.take_take, Nat.min_eq_left hk]
  refine ⟨htake, List.takeWhile_eq_self_iff.2 fun token member => ?_⟩
  rw [htake] at member
  have hkind := List.mem_takeWhile_imp (List.mem_of_mem_take member)
  exact hkind

/-- A failure is that of every list with the same tokens up to where it arises. -/
theorem Program.ofTokens_of_agree {others : List Token} {f : Failure} {stop : Cursor}
    (hfailed : Grammar.items (.start tokens file) = .failed f stop)
    (hagree : ∀ i ≤ stop.index, others[i]? = tokens[i]?) : ofTokens others file = .error f := by
  have hlocal := Construct.items.isLocal (c := .start tokens file) (d := .start others file) rfl rfl
    (fun i hi => Cursor.start_at_eq hagree (by rwa [hfailed] at hi))
  rw [hfailed] at hlocal
  exact ofTokens_of_result hlocal.1

/-- A program that is cut off is read up to the cut: had it failed before, the whole program would have failed
too. -/
theorem Grammar.items_take_stops {p : Program} {f : Failure} {stop : Cursor}
    (hok : Program.ofTokens tokens file = .ok p) (hk : k ≤ (tokens.takeWhile (·.kind ≠ .endOfInput)).length)
    (hfailed : items (.start (tokens.take k) file) = .failed f stop) :
    stop.ahead = [] ∧ stop.current = Spelling.ending (tokens.take k) file := by
  obtain ⟨htape, hindex⟩ := items_stays (tokens.take k) file
  rw [hfailed] at htape hindex
  obtain ⟨-, hwhole⟩ := take_inside hk
  rw [hwhole] at hindex
  -- A failure in front of the cut would be one of the whole list: nothing behind it has a say in it.
  have hreached : (tokens.take k).length ≤ stop.index := by
    by_contra hbefore
    have hagree : ∀ i ≤ stop.index, tokens[i]? = (tokens.take k)[i]? := by
      intro i hi
      rw [List.length_take] at hbefore
      rw [List.getElem?_take_of_lt (by omega)]
    rw [Program.ofTokens_of_agree hfailed hagree] at hok
    cases hok
  have hlength : stop.index = stop.tape.tokens.length :=
    (Nat.le_antisymm hindex hreached).trans (congrArg (·.tokens.length) htape.symm)
  obtain ⟨hahead, hcurrent⟩ := Cursor.at_end hlength
  have hending : stop.ending = (Cursor.start (tokens.take k) file).ending := congrArg Tape.ending htape
  have hnone : (tokens.take k).dropWhile (·.kind ≠ .endOfInput) = [] := by
    rw [List.dropWhile_eq_nil_iff]
    exact List.takeWhile_eq_self_iff.1 hwhole
  refine ⟨hahead, ?_⟩
  rw [hcurrent, hending, Spelling.ending, hnone]
  rfl

/-! ## Items that have been cut down -/

/-- What a cut at `k` leaves of a program: some whole items, and a bare chain from `first` on, which is all that
is left of the next item. -/
inductive Grammar.CutChain (tokens : List Token) (file : String) (p : Program) (k : Nat)
    (first : Token) : Prop
  | intro {front rest more others : List Token} {before after : List Item} {cut : Item}
    {e : Expr}
    (htokens : tokens.takeWhile (·.kind ≠ .endOfInput) = front ++ (first :: (rest ++ more) ++ others))
    (hcut : tokens.take k = front ++ first :: rest)
    (hitems : p.items = before ++ cut :: after)
    (hbefore : Row front first before)
    (hitem : Spelling.Item (Spelling.upTo maxNesting) (first :: (rest ++ more))
      (others.headD (Spelling.ending tokens file)) cut)
    (hmore : more ≠ [])
    (hchain : Spelling.Chain (Spelling.upTo maxNesting) (first :: rest) (Spelling.ending (tokens.take k) file) e)

/-- The chain that a statement at top level consists of. -/
theorem Grammar.chain_of_isExpression {c d : Cursor} {s : Stmt} (room : c.depth + maxNesting ≤ maxNesting)
    (hdone : chainStatement (nested maxNesting) c = .done s d) (hexpression : isExpression s = true) :
    ∃ tokens e, c.Passes tokens d ∧ Spelling.Chain (Spelling.upTo maxNesting) tokens d.current e := by
  obtain ⟨_, _, _, _, _, _, _, _, _, rfl⟩ | ⟨_, _, _, _, _, _, _, _, _, _, rfl⟩ | ⟨tokens, e, hpass, hchain, _⟩ :=
    (chainStatement_eq_done_iff (nested_spells maxNesting) room).1 hdone
  · cases hexpression
  · cases hexpression
  · exact ⟨tokens, e, hpass, hchain⟩

/-- An item that fails at a cut, but is read in the whole program, goes on behind the cut. -/
theorem Grammar.item_passes_cut {c c' d d' : Cursor} {rest others taken : List Token} {f : Failure}
    {i : Item} (room : c.depth + maxNesting ≤ maxNesting) (hpass : c.Passes rest d)
    (hend : d.kind = .endOfInput) (hfailed : atCursor item c = .failed f d) (hahead : c'.ahead = rest ++ others)
    (hpass' : c'.Passes taken d') (hitem : Spelling.Item (Spelling.upTo maxNesting) taken d'.current i) :
    ∃ more, taken = rest ++ more ∧ more ≠ [] := by
  have hbeyond (left : List Token) (hrest : rest = taken ++ left) (hleft : d'.ahead = left ++ others) : False := by
    have hstops : stopsItem d.current.kind = true := by
      rw [← Cursor.kind, hend]
      rfl
    rw [Cursor.current, hleft, headD_append] at hitem
    have hitem' := (Spelling.item_endsBefore (Spelling.upTo_endsBefore maxNesting)).headD hitem hstops
    rw [hrest] at hpass
    obtain ⟨b, hpass, hrest⟩ := hpass.split
    rw [← hrest.current] at hitem'
    have hread := (accepts_topItem trivial room i b).2 ⟨taken, hpass, hitem'⟩
    rw [hfailed] at hread
    cases hread
  have htaken : rest ++ others = taken ++ d'.ahead := hahead ▸ hpass'.ahead
  obtain ⟨more, hmore, hothers⟩ | ⟨left, hrest, hleft⟩ := List.append_eq_append_iff.1 htaken
  · refine ⟨more, hmore, ?_⟩
    rintro rfl
    exact hbeyond [] (by simpa using hmore.symm) (by simpa using hothers.symm)
  · exact (hbeyond left hrest hleft).elim

/-- The items of a program are those that are read in front of its end of input. -/
theorem Program.items_of_ofTokens {p : Program} (hok : Program.ofTokens tokens file = .ok p) :
    ∃ d, Grammar.items (.start tokens file) = .done p.items d := by
  rw [Program.ofTokens] at hok
  split at hok
  · next hrun =>
    cases hok
    exact ⟨_, hrun⟩
  · cases hok

/-- A bare chain that fails in front of a cut is what the cut has left of an item. -/
theorem Grammar.cutChain_of_failed {p : Program} {c d : Cursor} {front : List Token}
    {before : List Item} {f : Failure} {s : Stmt} (hok : Program.ofTokens tokens file = .ok p)
    (hk : k ≤ (tokens.takeWhile (·.kind ≠ .endOfInput)).length)
    (hfront : (Cursor.start (tokens.take k) file).Passes front c) (hbefore : Row front c.current before)
    (hfailed : atCursor item c = .failed f d) (hahead : d.ahead = [])
    (hcurrent : d.current = Spelling.ending (tokens.take k) file) (hend : d.kind = .endOfInput)
    (hdone : chainStatement (nested maxNesting) c = .done s d) (hexpression : isExpression s = true) :
    CutChain tokens file p k c.current := by
  have room : c.depth + maxNesting ≤ maxNesting := hfront.room (by simp [Cursor.start])
  obtain ⟨chain, e, hpass, hchain⟩ := chain_of_isExpression room hdone hexpression
  obtain ⟨first, rest, rfl, hfirst⟩ := chain_opens hchain
  have hc : c.current = first := hpass.current
  have hcut : tokens.take k = front ++ first :: rest := by
    have hwhole : tokens.take k = front ++ c.ahead := hfront.ahead
    rw [hwhole, hpass.ahead, hahead, List.append_nil]
  obtain ⟨htake, -⟩ := take_inside hk
  have hwhole : tokens.takeWhile (·.kind ≠ .endOfInput)
      = front ++ (first :: rest ++ (tokens.takeWhile (·.kind ≠ .endOfInput)).drop k) := by
    rw [← List.append_assoc, ← hcut, htake, List.take_append_drop]
  obtain ⟨stop, hstart, -⟩ := Cursor.start_passes tokens file
  rw [hwhole] at hstart
  obtain ⟨c', hfront', hrest⟩ := hstart.split
  have hc' : c'.current = first := hrest.current
  rw [hc, ← hc'] at hbefore
  obtain ⟨z, hrun⟩ := Program.items_of_ofTokens hok
  have room₀ : (Cursor.start tokens file).depth + maxNesting ≤ maxNesting := by simp [Cursor.start]
  obtain ⟨after, hafter, hitems⟩ := (items_after_iff room₀ hfront' hbefore).1 hrun
  obtain ⟨taken, hpass', hmany⟩ := (accepts_items trivial (hfront'.room room₀) after z).1 hafter
  cases hmany with
  | nil hnext =>
    obtain rfl := hpass'.eq_of_nil
    rw [hc'] at hnext
    simp [insideProgram, hfirst] at hnext
  | @cons taken others next cut after hitem hmany =>
    have hz : z.kind = .endOfInput := by simpa [insideProgram, Cursor.kind] using hmany.stops
    obtain ⟨htokens, hending⟩ := (hfront'.trans hpass').of_start hz
    obtain ⟨d', htaken, hothers⟩ := hpass'.split
    rw [hending] at hitem
    have hitem' := hitem
    rw [← hending, ← hothers.current] at hitem'
    have hahead' : c'.ahead = first :: rest
        ++ ((tokens.takeWhile (·.kind ≠ .endOfInput)).drop k ++ stop.ahead) := by
      rw [hrest.ahead, List.append_assoc]
    obtain ⟨more, rfl, hmore⟩ := item_passes_cut room hpass hend hfailed hahead' htaken hitem'
    rw [hc'] at hbefore
    rw [hcurrent] at hchain
    rw [hc]
    exact .intro htokens.symm hcut hitems hbefore hitem hmore hchain

/-- A program that is cut off in front of its end of input is a program, or it fails at the end of input, since
more was needed there or there was no room for it, or the cut has reduced an item to a bare chain, and it fails
at the first token of that. -/
theorem Program.ofTokens_take {p : Program} (hok : Program.ofTokens tokens file = .ok p)
    (hk : k ≤ (tokens.takeWhile (·.kind ≠ .endOfInput)).length) :
    (∃ q, Program.ofTokens (tokens.take k) file = .ok q)
      ∨ (∃ f, Program.ofTokens (tokens.take k) file = .error f
          ∧ f.position = (Spelling.ending (tokens.take k) file).span.start
          ∧ ((∃ expected, f.cause = .unexpectedEnd expected) ∨ f.cause = .nestingTooDeep maxNesting))
      ∨ ∃ first, Program.ofTokens (tokens.take k) file = .error (bareChain first)
          ∧ CutChain tokens file p k first := by
  cases hrun : Grammar.items (.start (tokens.take k) file) with
  | done list c => exact .inl ⟨⟨list, ⟨.origin file, c.here⟩⟩, by rw [Program.ofTokens, hrun]⟩
  | failed f d =>
    have herror : Program.ofTokens (tokens.take k) file = .error f := by rw [Program.ofTokens, hrun]
    obtain ⟨hahead, hcurrent⟩ := items_take_stops hok hk hrun
    have hend : d.kind = .endOfInput := by rw [Cursor.kind, Cursor.current, hahead]; rfl
    obtain ⟨front, before, c, hfront, hbefore, hgo, hfailed⟩ := (items_eq_failed (by simp [Cursor.start])).1 hrun
    have hitem := hfailed
    rw [atCursor_of_room (hfront.room (by simp [Cursor.start]))] at hitem
    rcases item_rejects hitem with hrejects | ⟨-, rfl, s, hdone, hexpression⟩
    · obtain ⟨hposition, hcause⟩ := hrejects.atEnd hend
      exact .inr (.inl ⟨f, herror, by rw [hposition, Cursor.here, hcurrent], hcause⟩)
    · refine .inr (.inr ⟨c.current, herror, ?_⟩)
      exact cutChain_of_failed hok hk hfront hbefore hfailed hahead hcurrent hend hdone hexpression

/-- A definition that is cut off behind its name leaves a bare chain. -/
theorem Program.ofTokens_take_of_name :
    let first : Token := ⟨.identifier, "x", default⟩
    let tokens : List Token := [first, ⟨.define, ":=", default⟩, ⟨.number, "1", default⟩]
    let p : Program := ⟨[.statement (.define (.symbol "x" default) (.number 1 default) default)], default⟩
    ofTokens tokens "" = .ok p ∧ ofTokens (tokens.take 1) "" = .error (bareChain first)
      ∧ CutChain tokens "" p 1 first := by
  intro first tokens p
  have hok : ofTokens tokens "" = .ok p := by
    unfold tokens first p
    rfl
  have hcut : ofTokens (tokens.take 1) "" = .error (bareChain first) := rfl
  refine ⟨hok, hcut, ?_⟩
  have hk : 1 ≤ (tokens.takeWhile (·.kind ≠ .endOfInput)).length := by decide
  rcases Program.ofTokens_take hok hk with ⟨q, hq⟩ | ⟨f, hf, -, hcause⟩ | ⟨found, -, hchain⟩
  · rw [hcut] at hq
    cases hq
  · rw [hcut] at hf
    cases hf
    rcases hcause with ⟨_, hcause⟩ | hcause <;> cases hcause
  · have hfound : found = first := by
      obtain ⟨-, hleft, -⟩ := hchain
      obtain ⟨-, hleft⟩ | ⟨-, hleft⟩ := List.singleton_eq_append_iff.1 hleft
      · cases hleft
        rfl
      · cases hleft
    rwa [← hfound]

end WattFront
