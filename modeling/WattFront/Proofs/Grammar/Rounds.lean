import WattFront.Proofs.Grammar.Boundary
import WattFront.Proofs.Grammar.Forward
import WattFront.Proofs.Grammar.ProgramForms

/-! # The rounds of a loop

A loop that is done has gone through all of its rounds, and so has a loop that has failed, up to the round
that failed. `Reading.Rounds` is the part of a run that both have in common: some rounds that are done.

* `Rounds.repeats_iff` — the rounds of a run may be taken off its front;
* `exists_rounds_of_failed`, `whileAt_eq_failed` — a loop fails in one of its rounds;
* `Spelling.Several`, `rounds_many_iff` — the rounds of `many` spell items in a row;
* `many_eq_failed`, `many_after_iff` — where a row of items fails, and how it goes on;
* `items_eq_failed`, `items_after_iff`, `items_fail_after` — the same for the items of a program.
-/

namespace WattFront

open Grammar Reading Spelling

/-- Some rounds of a loop, one after the other. -/
inductive Reading.Rounds {α : Type} (goesOn : TokenKind → Bool) (step : α → Reading α) :
    α → Cursor → α → Cursor → Prop
  | none {a c} : Rounds goesOn step a c a c
  | round {a c b d z e} (hgo : goesOn c.kind = true) (hstep : step a c = .done b d)
    (hrest : Rounds goesOn step b d z e) : Rounds goesOn step a c z e

namespace Reading

variable {α : Type} {goesOn : TokenKind → Bool} {step : α → Reading α} {a b z : α} {c d e : Cursor}

namespace Rounds

/-- After some rounds a loop goes on like a loop that starts there. -/
theorem repeats_iff (h : Rounds goesOn step a c b d) :
    Repeats goesOn step a c z e ↔ Repeats goesOn step b d z e := by
  induction h with
  | none => exact Iff.rfl
  | round hgo hstep _ ih =>
    rw [repeats_of_go hgo, hstep, ← ih]
    constructor
    · rintro ⟨_, _, hdone, hrest⟩
      cases hdone
      exact hrest
    · intro hrest
      exact ⟨_, _, rfl, hrest⟩

/-- What each round keeps is kept by all of them. -/
theorem keeps {P : α → Cursor → Prop} (h : Rounds goesOn step a c b d) (hc : P a c)
    (hround : ∀ ⦃a c b d⦄, P a c → goesOn c.kind = true → step a c = .done b d → P b d) : P b d := by
  induction h with
  | none => exact hc
  | round hgo hstep _ ih => exact ih (hround hc hgo hstep)

end Rounds

/-! ## Loops that fail -/

variable {f : Failure}

theorem exists_rounds_of_repeatAt (budget : List Token) (h : repeatAt goesOn step budget a c = .failed f e) :
    ∃ b d, Rounds goesOn step a c b d ∧ goesOn d.kind = true ∧ step b d = .failed f e := by
  induction budget generalizing a c with
  | nil => cases h
  | cons token budget ih =>
    rw [repeatAt_cons] at h
    by_cases hgo : goesOn c.kind = true
    · rw [if_pos hgo, bind_apply] at h
      cases hstep : step a c with
      | done b d =>
        rw [hstep] at h
        obtain ⟨b', d', hrounds, hfailed⟩ := ih h
        exact ⟨b', d', .round hgo hstep hrounds, hfailed⟩
      | failed g d =>
        rw [hstep] at h
        cases h
        exact ⟨a, c, .none, hgo, hstep⟩
    · rw [if_neg hgo] at h
      cases h

/-- A loop fails in one of its rounds. -/
theorem exists_rounds_of_failed (h : whileAt goesOn step a c = .failed f e) :
    ∃ b d, Rounds goesOn step a c b d ∧ goesOn d.kind = true ∧ step b d = .failed f e :=
  exists_rounds_of_repeatAt c.ahead h

theorem repeatAt_eq_failed {keeps : Cursor → Prop} (hend : goesOn .endOfInput = false)
    (hround : ∀ ⦃a c b d⦄, keeps c → goesOn c.kind = true → step a c = .done b d →
      d.ahead.length < c.ahead.length ∧ keeps d)
    (hrounds : Rounds goesOn step a c b d) (hgo : goesOn d.kind = true) (hfailed : step b d = .failed f e)
    (budget : List Token) (hkeeps : keeps c) (hbudget : c.ahead.length ≤ budget.length) :
    repeatAt goesOn step budget a c = .failed f e := by
  -- Wherever the loop goes on it is not at the end of input, so there is something left of the budget.
  have hleft {c : Cursor} {budget : List Token} (hgo : goesOn c.kind = true)
      (hbudget : c.ahead.length ≤ budget.length) : ∃ token rest, budget = token :: rest := by
    refine List.exists_cons_of_ne_nil fun hnil => c.ahead_ne_nil ?_ ?_
    · intro hkind
      rw [hkind, hend] at hgo
      cases hgo
    · exact List.eq_nil_of_length_eq_zero (by simpa [hnil] using hbudget)
  induction hrounds generalizing budget with
  | none =>
    obtain ⟨token, rest, rfl⟩ := hleft hgo hbudget
    rw [repeatAt_cons, if_pos hgo, bind_apply, hfailed]
    rfl
  | @round a c b' d' _ _ hgo' hstep _ ih =>
    obtain ⟨token, rest, rfl⟩ := hleft hgo' hbudget
    obtain ⟨hless, hkeeps'⟩ := hround hkeeps hgo' hstep
    rw [repeatAt_cons, if_pos hgo', bind_apply, hstep]
    apply ih hgo hfailed rest hkeeps'
    simp only [List.length_cons] at hbudget
    omega

/-- If a round fails after some others then the loop fails, if each round consumes a token. -/
theorem whileAt_eq_failed (keeps : Cursor → Prop) (hend : goesOn .endOfInput = false)
    (hround : ∀ ⦃a c b d⦄, keeps c → goesOn c.kind = true → step a c = .done b d →
      d.ahead.length < c.ahead.length ∧ keeps d)
    (hkeeps : keeps c) (hrounds : Rounds goesOn step a c b d) (hgo : goesOn d.kind = true)
    (hfailed : step b d = .failed f e) : whileAt goesOn step a c = .failed f e :=
  repeatAt_eq_failed hend hround hrounds hgo hfailed c.ahead hkeeps (Nat.le_refl _)

end Reading

/-! ## Items in a row -/

namespace Spelling

inductive Several {α : Type} (item : Form α) : Form (List α)
  | nil {next} : Several item [] next []
  | cons {tokens others next a as} (hitem : item tokens (others.headD next) a)
    (hitems : Several item others next as) : Several item (tokens ++ others) next (a :: as)

variable {α : Type} {item : Form α} {tokens others : List Token} {next next' : Token} {as bs : List α}

theorem many_iff {goesOn : TokenKind → Bool} :
    Many goesOn item tokens next as ↔ Several item tokens next as ∧ goesOn next.kind = false := by
  constructor
  · intro h
    induction h with
    | nil hnext => exact ⟨.nil, hnext⟩
    | cons hitem _ ih => exact ⟨.cons hitem ih.1, ih.2⟩
  · rintro ⟨h, hnext⟩
    induction h with
    | nil => exact .nil hnext
    | cons hitem _ ih => exact .cons hitem (ih hnext)

theorem Several.append (h : Several item tokens (others.headD next) as) (h' : Several item others next bs) :
    Several item (tokens ++ others) next (as ++ bs) := by
  generalize hfirst : others.headD next = first at h
  induction h with
  | nil => exact h'
  | cons hitem _ ih =>
    subst hfirst
    rw [List.append_assoc, List.cons_append]
    refine .cons ?_ (ih rfl)
    rwa [headD_append]

theorem Several.endsBefore {stops : TokenKind → Prop} (h : item.EndsBefore stops) :
    (Several item).EndsBefore stops := by
  intro tokens next next' as hitems hnext
  induction hitems with
  | nil => exact .nil
  | cons hitem _ ih => exact .cons (h.headD hitem hnext) ih

end Spelling

namespace Reading

variable {α : Type} {levels : Nat} {goesOn : TokenKind → Bool} {x : Reading α} {form : Form α} {c e : Cursor}

/-- The rounds of `many` collect items in a row, latest first. -/
theorem rounds_many_iff (hopens : form.Opens (goesOn · = true)) (hx : x.AcceptsAt (goesOn · = true) levels form)
    {read z : List α} (room : c.depth + levels ≤ maxNesting) :
    Rounds goesOn (fun read => (· :: read) <$> x) read c z e ↔
      ∃ tokens as, c.Passes tokens e ∧ Several form tokens e.current as ∧ z = as.reverse ++ read := by
  constructor
  · intro h
    induction h with
    | none => exact ⟨[], [], .refl _, .nil, rfl⟩
    | round hgo hstep _ ih =>
      obtain ⟨a, hdone, rfl⟩ := map_eq_done.1 hstep
      obtain ⟨tokens, hpass, hform⟩ := (hx hgo room _ _).1 hdone
      obtain ⟨others, as, hpass', hitems, rfl⟩ := ih (hpass.room room)
      refine ⟨tokens ++ others, a :: as, hpass.trans hpass', .cons ?_ hitems, by simp⟩
      rwa [← hpass'.current]
  · rintro ⟨tokens, as, hpass, hitems, rfl⟩
    -- By induction on the row. What has been read already grows with it.
    generalize hnext : e.current = next at hitems
    induction hitems generalizing read c with
    | nil =>
      obtain rfl := hpass.eq_of_nil
      exact .none
    | @cons tokens others next a as hitem _ ih =>
      subst hnext
      obtain ⟨d, hpass, hpass'⟩ := hpass.split
      have hgo : goesOn c.kind = true := by
        obtain ⟨first, rest, rfl, hfirst⟩ := hopens hitem
        rwa [hpass.kind]
      have hdone : x c = .done a d :=
        (hx hgo room a d).2 ⟨tokens, hpass, by rwa [hpass'.current]⟩
      refine .round hgo (map_eq_done.2 ⟨a, hdone, rfl⟩) ?_
      rw [List.reverse_cons, List.append_assoc]
      exact ih (hpass.room room) hpass' rfl

theorem map_eq_failed {β : Type} {g : α → β} {f : Failure} : (g <$> x) c = .failed f e ↔ x c = .failed f e := by
  rw [map_apply]
  cases x c <;> simp [Outcome.bind]

/-- A row of items fails behind some of them, where one more item is called for and fails. -/
theorem many_eq_failed {f : Failure} (hend : goesOn .endOfInput = false) (hopens : form.Opens (goesOn · = true))
    (hx : x.AcceptsAt (goesOn · = true) levels form) (room : c.depth + levels ≤ maxNesting) :
    many goesOn x c = .failed f e ↔
      ∃ tokens as d, c.Passes tokens d ∧ Several form tokens d.current as ∧ goesOn d.kind = true
        ∧ x d = .failed f e := by
  rw [many, map_eq_failed]
  constructor
  · intro h
    obtain ⟨z, d, hrounds, hgo, hfailed⟩ := exists_rounds_of_failed h
    obtain ⟨tokens, as, hpass, hitems, -⟩ := (rounds_many_iff hopens hx room).1 hrounds
    exact ⟨tokens, as, d, hpass, hitems, hgo, map_eq_failed.1 hfailed⟩
  · rintro ⟨tokens, as, d, hpass, hitems, hgo, hfailed⟩
    have hrounds : Rounds goesOn (fun read => (· :: read) <$> x) [] c (as.reverse ++ []) d :=
      (rounds_many_iff hopens hx room).2 ⟨tokens, as, hpass, hitems, rfl⟩
    refine whileAt_eq_failed (·.depth + levels ≤ maxNesting) hend ?_ room hrounds hgo (map_eq_failed.2 hfailed)
    intro read c b d room hgo hstep
    obtain ⟨a, hdone, -⟩ := map_eq_done.1 hstep
    exact hx.consumes hopens hgo room hdone

/-- A row of items goes on behind some of them like a row that starts there. -/
theorem many_after_iff {tokens : List Token} {as all : List α} {d : Cursor}
    (hend : goesOn .endOfInput = false) (hopens : form.Opens (goesOn · = true))
    (hx : x.AcceptsAt (goesOn · = true) levels form) (room : c.depth + levels ≤ maxNesting)
    (hpass : c.Passes tokens d) (hitems : Several form tokens d.current as) :
    many goesOn x c = .done all e ↔ ∃ bs, many goesOn x d = .done bs e ∧ all = as ++ bs := by
  constructor
  · intro hdone
    obtain ⟨others, hpass', hmany⟩ := (accepts_many hend hopens hx trivial room all e).1 hdone
    have hrun : Repeats goesOn (fun read => (· :: read) <$> x) [] c (all.reverse ++ []) e :=
      (repeats_many_iff hopens hx room).2 ⟨others, all, hpass', hmany, rfl⟩
    have hrounds : Rounds goesOn (fun read => (· :: read) <$> x) [] c (as.reverse ++ []) d :=
      (rounds_many_iff hopens hx room).2 ⟨tokens, as, hpass, hitems, rfl⟩
    rw [hrounds.repeats_iff, repeats_many_iff hopens hx (hpass.room room)] at hrun
    obtain ⟨rest, bs, hpass', hmany, hreverse⟩ := hrun
    refine ⟨bs, (accepts_many hend hopens hx trivial (hpass.room room) bs e).2 ⟨rest, hpass', hmany⟩, ?_⟩
    simpa using congrArg List.reverse hreverse
  · rintro ⟨bs, hdone, rfl⟩
    obtain ⟨others, hpass', hmany⟩ := (accepts_many hend hopens hx trivial (hpass.room room) bs e).1 hdone
    obtain ⟨hitems', hstop⟩ := many_iff.1 hmany
    rw [hpass'.current] at hitems
    apply (accepts_many hend hopens hx trivial room (as ++ bs) e).2
    exact ⟨tokens ++ others, hpass.trans hpass', many_iff.2 ⟨hitems.append hitems', hstop⟩⟩

end Reading

/-! ## The items of a program -/

namespace Grammar

/-- Items one after the other, spelled with all the levels of nesting that there are. -/
abbrev Row : Form (List Item) :=
  Several (Spelling.Item (upTo maxNesting))

variable {c d e : Cursor} {front : List Token} {before all : List Item}

theorem accepts_topItem : (atCursor item).Accepts maxNesting (Spelling.Item (upTo maxNesting)) := by
  intro c _ room i d
  rw [atCursor_of_room room]
  exact accepts_item (nested_spells maxNesting) trivial room i d

/-- The items of a program fail behind some of them, at an item that fails. -/
theorem items_eq_failed {f : Failure} (room : c.depth + maxNesting ≤ maxNesting) :
    items c = .failed f e ↔
      ∃ front before d, c.Passes front d ∧ Row front d.current before ∧ insideProgram d.kind = true
        ∧ atCursor item d = .failed f e :=
  many_eq_failed rfl item_opens accepts_topItem.at room

/-- The items of a program go on behind some of them like a program that starts there. -/
theorem items_after_iff (room : c.depth + maxNesting ≤ maxNesting) (hpass : c.Passes front d)
    (hitems : Row front d.current before) :
    items c = .done all e ↔ ∃ after, items d = .done after e ∧ all = before ++ after :=
  many_after_iff rfl item_opens accepts_topItem.at room hpass hitems

/-- If the items behind some of them fail, all of them fail in the same way. -/
theorem items_fail_after {f : Failure} (room : c.depth + maxNesting ≤ maxNesting) (hpass : c.Passes front d)
    (hitems : Row front d.current before) (hfailed : items d = .failed f e) : items c = .failed f e := by
  obtain ⟨others, more, b, hpass', hmore, hgo, hitem⟩ := (items_eq_failed (hpass.room room)).1 hfailed
  rw [hpass'.current] at hitems
  exact (items_eq_failed room).2
    ⟨front ++ others, before ++ more, b, hpass.trans hpass', hitems.append hmore, hgo, hitem⟩

end Grammar

end WattFront
