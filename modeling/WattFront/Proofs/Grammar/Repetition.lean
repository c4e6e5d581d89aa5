import WattFront.Proofs.Grammar.Spelling

/-! # Repetition

A loop of the grammar stops in time: each of its rounds consumes a token, so the budget that is as long as
the tokens ahead is never exhausted. `Repeats` is the run of a loop without a budget, and
`whileAt_eq_done` says that the two agree. From it follow the forms of the constructs that repeat:

* `accepts_many` — items one after the other;
* `accepts_separated`, `accepts_commaList` — items with commas between them;
* `accepts_ifAt` — a clause that may be missing.
-/

namespace WattFront

open Grammar Spelling

/-- The run of a loop: rounds as long as the current token calls for one. -/
inductive Reading.Repeats {α : Type} (goesOn : TokenKind → Bool) (step : α → Reading α) :
    α → Cursor → α → Cursor → Prop
  | stop {a c} (hstop : goesOn c.kind = false) : Repeats goesOn step a c a c
  | round {a c b d z e} (hgo : goesOn c.kind = true) (hstep : step a c = .done b d)
    (hrest : Repeats goesOn step b d z e) : Repeats goesOn step a c z e

namespace Reading

variable {α β : Type} {levels : Nat} {goesOn : TokenKind → Bool}

theorem repeatAt_cons (step : α → Reading α) (token : Token) (budget : List Token) (a : α) (c : Cursor) :
    repeatAt goesOn step (token :: budget) a c =
      if goesOn c.kind then (step a >>= repeatAt goesOn step budget) c else .done a c := rfl

theorem repeats_of_stop {step : α → Reading α} {a z : α} {c e : Cursor}
    (hstop : goesOn c.kind = false) : Repeats goesOn step a c z e ↔ z = a ∧ e = c := by
  constructor
  · intro hrun
    cases hrun with
    | stop => exact ⟨rfl, rfl⟩
    | round hgo => exact absurd hgo (by simp [hstop])
  · rintro ⟨rfl, rfl⟩
    exact .stop hstop

theorem repeats_of_go {step : α → Reading α} {a z : α} {c e : Cursor} (hgo : goesOn c.kind = true) :
    Repeats goesOn step a c z e ↔ ∃ b d, step a c = .done b d ∧ Repeats goesOn step b d z e := by
  constructor
  · intro hrun
    cases hrun with
    | stop hstop => exact absurd hgo (by simp [hstop])
    | round _ hstep hrest => exact ⟨_, _, hstep, hrest⟩
  · rintro ⟨b, d, hstep, hrest⟩
    exact .round hgo hstep hrest

theorem repeatAt_eq_done {step : α → Reading α} {keeps : Cursor → Prop}
    (hend : goesOn .endOfInput = false)
    (hround : ∀ ⦃a c b d⦄, keeps c → goesOn c.kind = true → step a c = .done b d →
      d.ahead.length < c.ahead.length ∧ keeps d)
    (budget : List Token) {a z : α} {c e : Cursor} (hkeeps : keeps c)
    (hbudget : c.ahead.length ≤ budget.length) :
    repeatAt goesOn step budget a c = .done z e ↔ Repeats goesOn step a c z e := by
  induction budget generalizing a c with
  | nil =>
    have hahead : c.ahead = [] := List.eq_nil_of_length_eq_zero (by simpa using hbudget)
    have hkind : c.kind = .endOfInput := by
      rw [Cursor.kind, Cursor.current, hahead]
      rfl
    rw [repeats_of_stop (hkind ▸ hend), repeatAt, Outcome.done.injEq, eq_comm, @eq_comm _ c]
  | cons token budget ih =>
    rw [repeatAt_cons]
    by_cases hgo : goesOn c.kind = true
    · rw [if_pos hgo, repeats_of_go hgo, bind_eq_done]
      refine exists_congr fun b => exists_congr fun d => and_congr_right fun hstep => ?_
      obtain ⟨hless, hkeeps'⟩ := hround hkeeps hgo hstep
      apply ih hkeeps'
      simp only [List.length_cons] at hbudget
      omega
    · rw [if_neg hgo, repeats_of_stop (by simpa using hgo), Outcome.done.injEq, eq_comm, @eq_comm _ c]

/-- A loop runs until a token calls for no further round, if each round consumes a token. -/
theorem whileAt_eq_done {step : α → Reading α} (keeps : Cursor → Prop)
    (hend : goesOn .endOfInput = false)
    (hround : ∀ ⦃a c b d⦄, keeps c → goesOn c.kind = true → step a c = .done b d →
      d.ahead.length < c.ahead.length ∧ keeps d)
    {a z : α} {c e : Cursor} (hkeeps : keeps c) :
    whileAt goesOn step a c = .done z e ↔ Repeats goesOn step a c z e :=
  repeatAt_eq_done hend hround c.ahead hkeeps (Nat.le_refl _)

/-- A reading of a form that is not empty consumes a token. -/
theorem AcceptsAt.consumes {guard opens : TokenKind → Prop} {x : Reading α} {form : Form α}
    (h : x.AcceptsAt guard levels form) (hopens : form.Opens opens) {c d : Cursor} {a : α}
    (hguard : guard c.kind) (room : c.depth + levels ≤ maxNesting) (hdone : x c = .done a d) :
    d.ahead.length < c.ahead.length ∧ d.depth + levels ≤ maxNesting := by
  obtain ⟨tokens, hpass, hform⟩ := (h hguard room a d).1 hdone
  obtain ⟨first, others, rfl, -⟩ := hopens hform
  have hlength := hpass.length
  simp only [List.length_cons] at hlength
  exact ⟨by omega, hpass.room room⟩

/-- The rounds of `many` collect the items of a list, latest first. -/
theorem repeats_many_iff {x : Reading α} {form : Form α}
    (hopens : form.Opens (goesOn · = true)) (hx : x.AcceptsAt (goesOn · = true) levels form)
    {read z : List α} {c e : Cursor} (room : c.depth + levels ≤ maxNesting) :
    Repeats goesOn (fun read => (· :: read) <$> x) read c z e ↔
      ∃ tokens as, c.Passes tokens e ∧ Many goesOn form tokens e.current as
        ∧ z = as.reverse ++ read := by
  constructor
  · -- By induction on the run: the items of the rest are collected in front of the first one.
    intro hrun
    induction hrun with
    | stop hstop => exact ⟨[], [], .refl _, .nil hstop, rfl⟩
    | round hgo hstep _ ih =>
      obtain ⟨a, hdone, rfl⟩ := map_eq_done.1 hstep
      obtain ⟨tokens, hpass, hform⟩ := (hx hgo room _ _).1 hdone
      obtain ⟨others, as, hpass', hmany, rfl⟩ := ih (hpass.room room)
      refine ⟨tokens ++ others, a :: as, hpass.trans hpass', .cons ?_ hmany, by simp⟩
      rwa [← hpass'.current]
  · rintro ⟨tokens, as, hpass, hmany, rfl⟩
    -- By induction on the list: the token behind it stays the same, what has been read grows.
    generalize hnext : e.current = next at hmany
    induction hmany generalizing read c with
    | nil hstop =>
      subst hnext
      obtain rfl := hpass.eq_of_nil
      exact .stop hstop
    | @cons tokens others next a as hitem _ ih =>
      subst hnext
      obtain ⟨d, hpass, hpass'⟩ := hpass.split
      have hgo : goesOn c.kind = true := by
        obtain ⟨first, rest, rfl, hfirst⟩ := hopens hitem
        rw [Cursor.kind, hpass.current]
        exact hfirst
      have hdone : x c = .done a d :=
        (hx hgo room a d).2 ⟨tokens, hpass, by rwa [hpass'.current]⟩
      refine .round hgo (map_eq_done.2 ⟨a, hdone, rfl⟩) ?_
      rw [List.reverse_cons, List.append_assoc]
      exact ih (hpass.room room) hpass' rfl

/-- Items one after the other. -/
theorem accepts_many {x : Reading α} {form : Form α} (hend : goesOn .endOfInput = false)
    (hopens : form.Opens (goesOn · = true)) (hx : x.AcceptsAt (goesOn · = true) levels form) :
    (many goesOn x).Accepts levels (Many goesOn form) := by
  intro c _ room as d
  have hrun {z : List α} {e : Cursor} :
      whileAt goesOn (fun read => (· :: read) <$> x) [] c = .done z e ↔
        Repeats goesOn (fun read => (· :: read) <$> x) [] c z e := by
    refine whileAt_eq_done (·.depth + levels ≤ maxNesting) hend ?_ room
    intro read c b d room hgo hstep
    obtain ⟨a, hdone, -⟩ := map_eq_done.1 hstep
    exact hx.consumes hopens hgo room hdone
  rw [many, map_eq_done]
  constructor
  · rintro ⟨read, hloop, rfl⟩
    rw [hrun, repeats_many_iff hopens hx room] at hloop
    obtain ⟨tokens, as, hpass, hmany, rfl⟩ := hloop
    exact ⟨tokens, hpass, by simpa using hmany⟩
  · rintro ⟨tokens, hpass, hmany⟩
    refine ⟨as.reverse, ?_, as.reverse_reverse⟩
    rw [hrun, repeats_many_iff hopens hx room]
    exact ⟨tokens, as, hpass, hmany, by simp⟩

/-- A clause that may be missing. -/
theorem accepts_ifAt {x : Reading α} {form : Form α} {kind : TokenKind}
    (hopens : form.Opens (· = kind)) (hx : x.AcceptsAt (· = kind) levels form) :
    (ifAt kind x).Accepts levels (Clause kind form) := by
  intro c _ room a? d
  rw [ifAt]
  split
  · next hkind =>
    rw [map_eq_done]
    constructor
    · rintro ⟨a, hdone, rfl⟩
      obtain ⟨tokens, hpass, hform⟩ := (hx hkind room a d).1 hdone
      exact ⟨tokens, hpass, .some hform⟩
    · rintro ⟨tokens, hpass, hclause⟩
      cases hclause with
      | none hnext =>
        obtain rfl := hpass.eq_of_nil
        exact absurd hkind hnext
      | @some _ _ a hform => exact ⟨a, (hx hkind room a d).2 ⟨tokens, hpass, hform⟩, rfl⟩
  · next hkind =>
    rw [Outcome.done.injEq]
    constructor
    · rintro ⟨rfl, rfl⟩
      exact ⟨[], .refl c, .none hkind⟩
    · rintro ⟨tokens, hpass, hclause⟩
      cases hclause with
      | none => exact ⟨rfl, hpass.eq_of_nil.symm⟩
      | some hform =>
        obtain ⟨first, others, rfl, hfirst⟩ := hopens hform
        exact absurd (congrArg Token.kind hpass.current) (hfirst ▸ hkind)

end Reading

namespace Grammar

open Reading

variable {α : Type} {levels : Nat}

/-- A name. -/
theorem accepts_identifier : identifier.Accepts levels Name := by
  intro c _ room name d
  rw [identifier, expect_bind_iff .identifier rfl]
  constructor
  · rintro ⟨token, e, hpass, hkind, hdone⟩
    obtain ⟨rfl, rfl⟩ := pure_eq_done.1 hdone
    exact ⟨_, hpass, .intro hkind⟩
  · rintro ⟨_, hpass, ⟨hkind⟩⟩
    exact ⟨_, d, hpass, hkind, rfl⟩

inductive Further (form : Form α) : Form α
  | intro {comma tokens next a} (hcomma : comma.kind = .comma) (hitem : form tokens next a) :
    Further form (comma :: tokens) next a

theorem accepts_further {x : Reading α} {form : Form α} (hx : x.Accepts levels form) :
    (do let _ ← advance; x : Reading α).AcceptsAt (isComma · = true) levels (Further form) := by
  intro c hguard room a d
  have hkind : c.kind = .comma := by simpa [isComma] using hguard
  have hcurrent := Cursor.Passes.next c (by simp [hkind])
  rw [advance_bind, hx trivial (hcurrent.room room)]
  constructor
  · rintro ⟨tokens, hpass, hform⟩
    exact ⟨_, hcurrent.cons hpass, .intro hkind hform⟩
  · rintro ⟨_, hpass, ⟨_, hform⟩⟩
    obtain ⟨e, hcomma, hpass⟩ := hpass.uncons
    obtain rfl := hcomma.next_eq
    exact ⟨_, hpass, hform⟩

/-- An item and further items with their commas are a separated list. -/
theorem separated_iff {form : Form α} {tokens : List Token} {next : Token} {as : List α} :
    Separated form tokens next as ↔
      ∃ us vs b bs, tokens = us ++ vs ∧ as = b :: bs ∧ form us (vs.headD next) b
        ∧ Many isComma (Further form) vs next bs := by
  constructor
  · intro h
    induction h with
    | @one tokens next a hitem hnext =>
      exact ⟨tokens, [], a, [], by simp, rfl, hitem, .nil (by simpa [isComma] using hnext)⟩
    | @more tokens comma others next a as hitem hcomma _ ih =>
      obtain ⟨us, vs, b, bs, rfl, rfl, hb, hbs⟩ := ih
      exact ⟨tokens, (comma :: us) ++ vs, a, b :: bs, rfl, rfl, hitem,
        .cons (.intro hcomma hb) hbs⟩
  · rintro ⟨us, vs, b, bs, rfl, rfl, hb, hbs⟩
    induction hbs generalizing us b with
    | nil hnext =>
      rw [List.append_nil]
      exact .one hb (by simpa [isComma] using hnext)
    | cons hitem _ ih =>
      obtain ⟨hcomma, hitem⟩ := hitem
      exact .more hb hcomma (ih _ _ hitem)

theorem accepts_separated {x : Reading α} {form : Form α} (hx : x.Accepts levels form) :
    (separated x).Accepts levels (Separated form) := by
  intro c _ room as d
  have hfurther : (Further form).Opens (isComma · = true) := by
    rintro _ _ _ ⟨hcomma, _⟩
    exact ⟨_, _, rfl, by simpa [isComma] using hcomma⟩
  have hmany := accepts_many rfl hfurther (accepts_further hx)
  rw [separated, hx.bind_iff room]
  constructor
  · rintro ⟨us, b, e, hpass, hb, hrest⟩
    obtain ⟨vs, bs, f, hpass', hbs, hdone⟩ := (hmany.bind_iff (hpass.room room)).1 hrest
    obtain ⟨rfl, rfl⟩ := pure_eq_done.1 hdone
    rw [hpass'.current] at hb
    exact ⟨us ++ vs, hpass.trans hpass', separated_iff.2 ⟨us, vs, b, bs, rfl, rfl, hb, hbs⟩⟩
  · rintro ⟨tokens, hpass, hlist⟩
    obtain ⟨us, vs, b, bs, rfl, rfl, hb, hbs⟩ := separated_iff.1 hlist
    obtain ⟨e, hpass, hpass'⟩ := hpass.split
    rw [← hpass'.current] at hb
    exact ⟨us, b, e, hpass, hb, (hmany.bind_iff (hpass.room room)).2 ⟨vs, bs, d, hpass', hbs, rfl⟩⟩

theorem separated_opens {form : Form α} {opens : TokenKind → Prop} (h : form.Opens opens) :
    (Separated form).Opens opens := by
  intro tokens next as hlist
  cases hlist with
  | one hitem => exact h hitem
  | more hitem =>
    obtain ⟨first, others, rfl, hfirst⟩ := h hitem
    exact ⟨first, _, rfl, hfirst⟩

/-- The items of a comma list, and its closing bracket. -/
theorem accepts_commaList {x : Reading α} {form : Form α} {closing : TokenKind}
    (hclosing : closing != .endOfInput) (hopens : form.Opens (· ≠ closing))
    (hx : x.Accepts levels form) :
    (commaList closing x).Accepts levels (CommaList closing form) := by
  intro c _ room as d
  rw [commaList, kind_bind]
  split
  · next hkind =>
    rw [pure_bind, expect_bind_iff closing hclosing]
    constructor
    · rintro ⟨close, e, hpass, hclose, hdone⟩
      obtain ⟨rfl, rfl⟩ := pure_eq_done.1 hdone
      exact ⟨_, hpass, .nil hclose⟩
    · rintro ⟨_, hpass, hlist⟩
      cases hlist with
      | nil hclose => exact ⟨_, d, hpass, hclose, rfl⟩
      | cons hitems =>
        obtain ⟨first, others, rfl, hfirst⟩ := separated_opens hopens hitems
        exact absurd (hpass.kind.symm.trans hkind) hfirst
  · next hkind =>
    rw [(accepts_separated hx).bind_iff room]
    constructor
    · rintro ⟨tokens, bs, e, hpass, hitems, hrest⟩
      obtain ⟨close, f, hpass', hclose, hdone⟩ := (expect_bind_iff closing hclosing).1 hrest
      obtain ⟨rfl, rfl⟩ := pure_eq_done.1 hdone
      rw [hpass'.current] at hitems
      exact ⟨_, hpass.trans hpass', .cons hitems hclose⟩
    · rintro ⟨_, hpass, hlist⟩
      cases hlist with
      | nil hclose => exact absurd (hpass.kind.trans hclose) hkind
      | cons hitems hclose =>
        obtain ⟨e, hpass, hpass'⟩ := hpass.split
        refine ⟨_, as, e, hpass, hpass'.current ▸ hitems, ?_⟩
        exact (expect_bind_iff closing hclosing).2 ⟨_, d, hpass', hclose, rfl⟩

/-- A comma list with both of its brackets. -/
theorem accepts_bracketed {x : Reading α} {form : Form α} {opening closing : TokenKind}
    (hopening : opening != .endOfInput) (hclosing : closing != .endOfInput)
    (hopens : form.Opens (· ≠ closing)) (hx : x.Accepts levels form) :
    (do let _ ← expect opening; commaList closing x).Accepts levels
      (Bracketed opening closing form) := by
  intro c _ room as d
  rw [expect_bind_iff opening hopening]
  constructor
  · rintro ⟨first, e, hpass, hfirst, hlist⟩
    obtain ⟨tokens, hpass', hform⟩ :=
      (accepts_commaList hclosing hopens hx trivial (hpass.room room) as d).1 hlist
    exact ⟨_, hpass.cons hpass', .intro hfirst hform⟩
  · rintro ⟨_, hpass, ⟨hfirst, hlist⟩⟩
    obtain ⟨e, hpass, hpass'⟩ := hpass.uncons
    exact ⟨_, e, hpass, hfirst,
      (accepts_commaList hclosing hopens hx trivial (hpass.room room) as d).2 ⟨_, hpass', hlist⟩⟩

theorem name_opens : Name.Opens (· = .identifier) := by
  rintro _ _ _ ⟨hkind⟩
  exact ⟨_, _, rfl, hkind⟩

theorem bracketed_opens {form : Form α} {opening closing : TokenKind} :
    (Bracketed opening closing form).Opens (· = opening) := by
  rintro _ _ _ ⟨hfirst, _⟩
  exact ⟨_, _, rfl, hfirst⟩

/-- A parameter list. -/
theorem accepts_parameters : parameters.Accepts levels Parameters := by
  refine accepts_bracketed rfl rfl ?_ accepts_identifier
  intro tokens next name hname
  obtain ⟨first, others, htokens, hfirst⟩ := name_opens hname
  exact ⟨first, others, htokens, by simp [hfirst]⟩

end Grammar

end WattFront
