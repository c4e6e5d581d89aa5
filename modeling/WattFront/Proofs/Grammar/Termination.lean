import WattFront.Proofs.Grammar.CursorSafety
import WattFront.Proofs.Grammar.OpenLevels
import WattFront.Proofs.Grammar.Progress

/-! # Reading comes to an end

The loops of the grammar carry a budget of tokens, and its recursion a number of levels. Neither is ever what ends
them. A loop ends since each round consumes a token, and the recursion ends since each turn of it opens a level: in
place of what is behind the last round, or inside the last level, there may stand anything at all, and nothing
comes of it.

* `Grammar.tied` — the grammar whose constructs call one another;
* `Reading.agreeing` — the congruence of readings that cannot be told apart where there is some room;
* `Reading.unrolled`, `Loop` — the loops, round by round;
* `Grammar.nestedOver` — the recursion, level by level;
* `reading_ends` — the result.
-/

namespace WattFront

open Grammar

/-! ## Readings that agree where there is some room -/

namespace Reading

variable {α β : Type} {P Q : Nat → Prop}

/-- Two readings do the same where there is some room for levels, and close the levels they open if they are done. -/
def Agree (P : Nat → Prop) (x y : Reading α) : Prop :=
  ∀ ⦃c : Cursor⦄, P c.room → x c = y c ∧ ∀ ⦃a d⦄, y c = .done a d → d.depth = c.depth

theorem Agree.bind {x y : Reading α} {f g : α → Reading β} (hx : Agree P x y) (hf : ∀ a, Agree P (f a) (g a)) :
    Agree P (x >>= f) (y >>= g) := by
  intro c hc
  obtain ⟨hxy, hdepth⟩ := hx hc
  rw [bind_apply, bind_apply, hxy]
  cases hy : y c with
  | failed f d => exact ⟨rfl, nofun⟩
  | done a d =>
    have hd := hdepth hy
    have hroom : d.room = c.room := by rw [Cursor.room, Cursor.room, hd]
    obtain ⟨hfg, hlast⟩ := hf a (hroom ▸ hc)
    exact ⟨hfg, fun b e hdone => (hlast hdone).trans hd⟩

def agreeing (P : Nat → Prop) : Congruence where
  rel := Agree P
  pure _ c _ := ⟨rfl, fun _ _ h => by rw [← (pure_eq_done.1 h).2]⟩
  bind := Agree.bind
  look h := fun c hc => h c c.depth hc
  advance c _ := ⟨rfl, fun _ _ h => by cases h; exact c.depth_next⟩
  fail _ _ _ _ := ⟨rfl, nofun⟩

theorem enter_bind_of_full (f : Unit → Reading α) {c : Cursor} (hroom : c.room = 0) :
    (Reading.enter >>= f) c = .failed c.tooDeep c := by
  have hdepth : ¬ c.depth < maxNesting := by
    rw [Cursor.room] at hroom
    omega
  rw [bind_apply, Reading.enter, Cursor.enter?, if_neg hdepth]
  rfl

/-- What agrees inside a level agrees around it, where there is room for one level more. -/
theorem Agree.enter {f g : Unit → Reading α} (hPQ : ∀ room, Q (room + 1) → P room)
    (h : ∀ ⦃c : Cursor⦄, P c.room → Q c.leave.room →
      f () c = g () c ∧ ∀ ⦃a d⦄, g () c = .done a d → d.depth = c.leave.depth) :
    Agree Q (Reading.enter >>= f) (Reading.enter >>= g) := by
  intro c hc
  by_cases hroom : c.depth < maxNesting
  · rw [enter_bind _ hroom, enter_bind _ hroom]
    have hinside : c.room = Cursor.room { c with depth := c.depth + 1 } + 1 := by
      simp only [Cursor.room]
      omega
    exact h (hPQ _ (hinside ▸ hc)) hc
  · have hfull : c.room = 0 := Nat.sub_eq_zero_of_le (Nat.le_of_not_lt hroom)
    rw [enter_bind_of_full f hfull, enter_bind_of_full g hfull]
    exact ⟨rfl, fun _ _ hdone => by cases hdone⟩

theorem leave_depth_eq {c d : Cursor} (h : d.depth = c.depth) : d.leave.depth = c.leave.depth :=
  congrArg (· - 1) h

/-- Readings that agree inside a level, and behind it. -/
theorem agreeing_encloses (hPQ : ∀ room, Q (room + 1) → P room) : (agreeing Q).Encloses (agreeing P) where
  within {α x y} hx := by
    rw [within_eq, within_eq]
    refine Agree.enter hPQ fun c hc _ => ?_
    obtain ⟨hxy, hdepth⟩ := hx hc
    rw [closing, closing, hxy]
    cases hy : y c with
    | failed f d => exact ⟨rfl, nofun⟩
    | done a d =>
      refine ⟨rfl, fun b e hdone => ?_⟩
      cases hdone
      exact leave_depth_eq (hdepth hy)
  around {α β x y f g} hx hf := by
    refine Agree.enter hPQ fun c hc hleave => ?_
    obtain ⟨hxy, hdepth⟩ := hx hc
    rw [bind_apply, bind_apply, hxy]
    cases hy : y c with
    | failed f d => exact ⟨rfl, nofun⟩
    | done a d =>
      have hd := leave_depth_eq (hdepth hy)
      have hroom : d.leave.room = c.leave.room := by rw [Cursor.room, Cursor.room, hd]
      obtain ⟨hfg, hlast⟩ := hf a (hroom ▸ hleave)
      exact ⟨hfg, fun b e hdone => (hlast hdone).trans hd⟩

end Reading

namespace Grammar

open Reading

/-! ## Recursion -/

def tied : Inner where
  expr power := atCursor fun inner => inner.expr power
  block := atCursor fun inner => inner.block

instance agree_nested (levels : Nat) :
    Inner.Related (agreeing (· = levels)) (nested levels) tied where
  expr power := ⟨fun c hroom => by
    have htied : tied.expr power c = (nested levels).expr power c := by rw [← hroom]; rfl
    rw [htied]
    exact ⟨rfl, fun _ _ hdone => Holds.depth_eq (y := (heldOpen levels).expr power) hdone⟩⟩
  block := ⟨fun c hroom => by
    have htied : tied.block c = (nested levels).block c := by rw [← hroom]; rfl
    rw [htied]
    exact ⟨rfl, fun _ _ hdone => Holds.depth_eq (y := (heldOpen levels).block) hdone⟩⟩

/-- A construct that is read with as many levels as there is room for calls the tied grammar. -/
theorem atCursor_eq {α : Type} {construct : Inner → Reading α}
    (h : ∀ (P : Nat → Prop) (inner inner' : Inner), [Inner.Related (agreeing P) inner inner'] →
      Related (agreeing P) (construct inner) (construct inner')) :
    atCursor construct = construct tied := by
  funext c
  have hrelated := h (· = c.room) (nested c.room) tied
  exact (hrelated.rel (show c.room = c.room from rfl)).1

theorem parse_eq (p : Production) : p.parse = p.reading tied :=
  atCursor_eq fun _ inner inner' => related_reading inner inner' p

theorem items_eq : items = many insideProgram (item tied) := by
  rw [items, atCursor_eq fun _ inner inner' => related_item inner inner']

/-- The tied grammar calls itself, one level deeper. -/
theorem tied_eq : tied = ⟨expression tied, block tied⟩ := by
  have hlevels (levels : Nat) : Inner.Related (agreeing (· = levels + 1))
      ⟨expression (nested levels), block (nested levels)⟩ ⟨expression tied, block tied⟩ :=
    related_level (agreeing_encloses (P := (· = levels)) fun _ => Nat.succ.inj) (nested levels) tied
  have hexpr (power : BindingPower) : tied.expr power = expression tied power := by
    funext c
    have htied : tied.expr power c = (nested c.room).expr power c := rfl
    rw [htied]
    cases hroom : c.room with
    | zero =>
      rw [expression, within_eq, enter_bind_of_full _ hroom]
      rfl
    | succ levels => exact (((hlevels levels).expr power).rel hroom).1
  have hblock : tied.block = block tied := by
    funext c
    have htied : tied.block c = (nested c.room).block c := rfl
    rw [htied]
    cases hroom : c.room with
    | zero =>
      rw [block, enter_bind_of_full _ hroom]
      rfl
    | succ levels => exact ((hlevels levels).block.rel hroom).1
  rw [← hblock, ← funext hexpr]

/-- The recursion of the grammar as far as some levels, and something else inside the last one. -/
def nestedOver (bottom : Inner) : Nat → Inner
  | 0 => bottom
  | levels + 1 => ⟨expression (nestedOver bottom levels), block (nestedOver bottom levels)⟩

/-- What is inside the last level does not matter if there is no room for so many levels. -/
instance agree_nestedOver (bottom : Inner) (levels : Nat) :
    Inner.Related (agreeing (· < levels)) (nestedOver bottom levels) tied := by
  induction levels with
  | zero =>
    exact ⟨fun _ => ⟨fun _ h => absurd h (Nat.not_lt_zero _)⟩, ⟨fun _ h => absurd h (Nat.not_lt_zero _)⟩⟩
  | succ levels ih =>
    rw [nestedOver, tied_eq]
    have hencloses : (agreeing (· < levels + 1)).Encloses (agreeing (· < levels)) :=
      agreeing_encloses fun _ => Nat.lt_of_succ_lt_succ
    exact related_level hencloses (nestedOver bottom levels) tied

theorem reading_nestedOver (bottom : Inner) {levels : Nat} (p : Production) {c : Cursor} (h : c.room < levels) :
    p.reading (nestedOver bottom levels) c = p.parse c := by
  rw [parse_eq]
  have hrelated : Related (agreeing (· < levels)) (p.reading (nestedOver bottom levels)) (p.reading tied) :=
    related_reading (nestedOver bottom levels) tied p
  exact (hrelated.rel h).1

/-- A grammar that calls itself, one level deeper, can only be the tied grammar. -/
theorem tied_unique {inner : Inner} (h : inner = ⟨expression inner, block inner⟩) : inner = tied := by
  have hlevels (levels : Nat) : nestedOver inner levels = inner := by
    induction levels with
    | zero => rfl
    | succ levels ih => rw [nestedOver, ih, ← h]
  have hagree (c : Cursor) : Inner.Related (agreeing (· < c.room + 1)) inner tied := by
    rw [← hlevels (c.room + 1)]
    exact agree_nestedOver inner (c.room + 1)
  have hexpr : inner.expr = tied.expr := by
    funext power c
    exact (((hagree c).expr power).rel (Nat.lt_succ_self c.room)).1
  have hblock : inner.block = tied.block := by
    funext c
    exact ((hagree c).block.rel (Nat.lt_succ_self c.room)).1
  rw [show inner = ⟨inner.expr, inner.block⟩ from rfl, hexpr, hblock]

end Grammar

/-! ## Loops -/

namespace Reading

variable {α : Type} {goesOn : TokenKind → Bool} {step : α → Reading α}

/-- Some rounds of a loop, and something else behind the last one. -/
def unrolled (goesOn : TokenKind → Bool) (step rest : α → Reading α) : Nat → α → Reading α
  | 0, a => rest a
  | rounds + 1, a => fun c =>
    if goesOn c.kind then (step a c).bind (unrolled goesOn step rest rounds) else .done a c

theorem unrolled_succ (rest : α → Reading α) (rounds : Nat) (a : α) (c : Cursor) :
    unrolled goesOn step rest (rounds + 1) a c
      = if goesOn c.kind then (step a c).bind (unrolled goesOn step rest rounds) else .done a c := rfl

/-- A loop that does not go on at the end of input, and whose rounds leave fewer tokens ahead, is over before there
have been more rounds than tokens ahead. -/
theorem repeatAt_eq_unrolled (hend : goesOn .endOfInput = false)
    (hround : ∀ {a b : α} {c d : Cursor}, step a c = .done b d → d.ahead.length < c.ahead.length)
    (rest : α → Reading α) {budget : List Token} {rounds : Nat} {a : α} {c : Cursor}
    (hbudget : c.ahead.length ≤ budget.length) (hrounds : c.ahead.length < rounds) :
    repeatAt goesOn step budget a c = unrolled goesOn step rest rounds a c := by
  induction budget generalizing rounds a c with
  | nil =>
    obtain ⟨rounds, rfl⟩ := Nat.exists_eq_add_of_lt hrounds
    have hahead : c.ahead = [] := List.length_eq_zero_iff.1 (Nat.le_zero.1 hbudget)
    have hkind : c.kind = .endOfInput := by rw [Cursor.kind, Cursor.current, hahead]; rfl
    rw [unrolled_succ, hkind, hend]
    rfl
  | cons token budget ih =>
    obtain ⟨rounds, rfl⟩ : ∃ n, rounds = n + 1 := Nat.exists_eq_succ_of_ne_zero (by omega)
    rw [repeatAt_cons, unrolled_succ]
    split
    · rw [bind_apply]
      cases hstep : step a c with
      | failed f d => rfl
      | done b d =>
        have hlt := hround hstep
        rw [List.length_cons] at hbudget
        exact ih (by omega) (by omega)
    · rfl

/-- The rounds of a loop do the same if each of them does, where it can come to. -/
theorem unrolled_congr {P : Nat → Prop} {step' : α → Reading α} (h : ∀ a, Agree P (step a) (step' a))
    (rest : α → Reading α) (rounds : Nat) (a : α) {c : Cursor} (hc : P c.room) :
    unrolled goesOn step rest rounds a c = unrolled goesOn step' rest rounds a c := by
  induction rounds generalizing a c with
  | zero => rfl
  | succ rounds ih =>
    rw [unrolled_succ, unrolled_succ]
    obtain ⟨hstep, hdepth⟩ := h a hc
    rw [hstep]
    split
    · cases hrun : step' a c with
      | failed f d => rfl
      | done b d =>
        have hroom : d.room = c.room := by rw [Cursor.room, Cursor.room, hdepth hrun]
        exact ih b (hroom ▸ hc)
    · rfl

end Reading

open Reading

namespace Grammar

def collect {α : Type} (x : Reading α) (read : List α) : Reading (List α) :=
  (· :: read) <$> x

inductive ListItem : {α : Type} → Reading α → Prop
  | name : ListItem identifier
  | argument : ListItem (tied.expr .lowest)
  | pair : ListItem (pair tied)
  | singleImport : ListItem singleImport

/-- The loops of the grammar: the kinds of tokens at which they go on, and their rounds. -/
inductive Loop : {α : Type} → (TokenKind → Bool) → (α → Reading α) → Prop
  | items : Loop insideProgram (collect (item tied))
  | statements : Loop insideBraces (collect (statement tied))
  | methods : Loop insideBraces (collect (method tied))
  /-- A comma list, also one without brackets. -/
  | list {α : Type} {x : Reading α} (h : ListItem x) : Loop isComma (collect (advance >>= fun _ => x))
  | links (start : Position) : Loop opensLink (link tied start)
  | operators (power : BindingPower) : Loop (bindsTighter power) (nextOperation tied)
  | cases : Loop opensCase (collect (arm tied))
  | branches : Loop opensBranch (collect (branch tied))

instance forward_tied : tied.Forward where
  expr power := inferInstanceAs (atCursor fun inner => inner.expr power).Forward
  block := inferInstanceAs (atCursor fun inner => inner.block).Forward

instance consumes_tied : tied.Consumes where
  expr power := inferInstanceAs (atCursor fun inner => inner.expr power).Consumes
  block := inferInstanceAs (atCursor fun inner => inner.block).Consumes

instance moving_tied : Inner.Related moving tied tied where
  expr power := ⟨moving_ties fun inner inner' _ =>
    (inferInstance : Related moving (inner.expr power) (inner'.expr power)).rel⟩
  block := ⟨moving_ties fun inner inner' _ => (inferInstance : Related moving inner.block inner'.block).rel⟩

theorem ListItem.consumes {α : Type} {x : Reading α} (h : ListItem x) : x.Consumes := by
  cases h <;> infer_instance

theorem ListItem.moving {α : Type} {x : Reading α} (h : ListItem x) : Related moving x x := by
  cases h <;> infer_instance

namespace Loop

variable {α : Type} {goesOn : TokenKind → Bool} {step : α → Reading α} (h : Loop goesOn step)

include h

/-- No loop goes on at the end of input. -/
theorem goesOn_end : goesOn .endOfInput = false := by
  cases h with
  | operators power => cases power <;> rfl
  | items | statements | methods | list | links | cases | branches => rfl

/-- A round consumes a token. -/
theorem consumes (a : α) : (step a).Consumes := by
  cases h with
  | @list _ x hitem =>
    have hround : (advance >>= fun _ => x).Consumes := .behind fun _ => hitem.consumes
    exact .map
  | items | statements | methods | cases | branches => exact .map
  | links | operators => infer_instance

theorem moving (a : α) : Related moving (step a) (step a) := by
  cases h with
  | list hitem =>
    have := hitem.moving
    exact .map
  | items | statements | methods | cases | branches => exact .map
  | links | operators => infer_instance

/-- A round leaves fewer tokens ahead. -/
theorem length_lt {a b : α} {c d : Cursor} (hdone : step a c = .done b d) : d.ahead.length < c.ahead.length := by
  have hindex := (h.consumes a).lt hdone
  have hmoves : c.Moves d := by
    have hmoving := (h.moving a).rel c
    rwa [hdone] at hmoving
  have hlength := congrArg (fun s => s.tokens.length) hmoves.tape_and_index.1
  simp only [Cursor.length_tape] at hlength
  omega

theorem whileAt_eq (rest : α → Reading α) {rounds : Nat} {a : α} {c : Cursor} (hrounds : c.ahead.length < rounds) :
    whileAt goesOn step a c = Reading.unrolled goesOn step rest rounds a c :=
  repeatAt_eq_unrolled h.goesOn_end h.length_lt rest (Nat.le_refl _) hrounds

end Loop

/-- The items of a program as far as some of them, and something else behind the last one; with some levels of
nesting, and something else inside the last one. -/
def unrolledItems (bottom : Inner) (levels : Nat) (rest : List Item → Reading (List Item)) (rounds : Nat) :
    Reading (List Item) :=
  List.reverse <$> Reading.unrolled insideProgram (collect (item (nestedOver bottom levels))) rest rounds []

theorem items_eq_unrolled (bottom : Inner) {levels : Nat} (rest : List Item → Reading (List Item)) {rounds : Nat}
    {c : Cursor} (hlevels : c.room < levels) (hrounds : c.ahead.length < rounds) :
    items c = unrolledItems bottom levels rest rounds c := by
  have hitem (read : List Item) :
      Agree (· < levels) (collect (item (nestedOver bottom levels)) read) (collect (item tied) read) :=
    (Related.map : Related (agreeing (· < levels)) _ _).rel
  rw [items_eq, many, map_apply, unrolledItems, map_apply]
  rw [unrolled_congr hitem rest rounds [] hlevels, ← Loop.items.whileAt_eq rest hrounds]
  rfl

end Grammar

/-- Whatever is read takes up tokens, and so every reading comes to an end, at any cursor and on any token list.

* An expression, a statement, a block, a definition or an item that is done has consumed a token, and so has the
  item of a comma list.
* Each round of a loop consumes a token, so nothing that stands behind more rounds than there are tokens ahead is
  ever reached.
* The constructs call one another through expressions and blocks only, which first open a level: there is one
  grammar that does so, and nothing that stands inside more levels than there is room for is ever reached.
* So a program is read with no more items than tokens and no more levels than may be opened. -/
theorem reading_ends :
    ((∀ p : Production, (∀ close, p = .names close → close ≠ .endOfInput) → p.parse.Consumes)
        ∧ ∀ {α : Type} {x : Reading α}, ListItem x → x.Consumes)
      ∧ (∀ {α : Type} {goesOn : TokenKind → Bool} {step : α → Reading α}, Loop goesOn step →
          (∀ a, (step a).Consumes)
            ∧ ∀ (rest : α → Reading α) (rounds : Nat) (a : α) (c : Cursor), c.ahead.length < rounds →
              whileAt goesOn step a c = unrolled goesOn step rest rounds a c)
      ∧ ((∀ p : Production, p.parse = p.reading tied) ∧ items = many insideProgram (item tied)
          ∧ ∀ inner : Inner, inner = ⟨expression inner, block inner⟩ ↔ inner = tied)
      ∧ (∀ (bottom : Inner) (levels : Nat) (p : Production) (c : Cursor), c.room < levels →
          p.reading (nestedOver bottom levels) c = p.parse c)
      ∧ ∀ (tokens : List Token) (file : String) (bottom : Inner) (levels : Nat)
          (rest : List Item → Reading (List Item)) (rounds : Nat), maxNesting < levels → tokens.length < rounds →
          items (.start tokens file) = unrolledItems bottom levels rest rounds (.start tokens file) := by
  refine ⟨⟨fun p hp => Production.parse_consumes hp, ListItem.consumes⟩, fun {α goesOn step} hloop => ?loops,
    ⟨parse_eq, items_eq, fun inner => ?unique⟩, fun bottom levels p c h => reading_nestedOver bottom p h,
    fun tokens file bottom levels rest rounds hlevels hrounds => ?program⟩
  case loops => exact ⟨hloop.consumes, fun rest rounds a c h => hloop.whileAt_eq rest h⟩
  case unique => exact ⟨tied_unique, fun h => h ▸ tied_eq⟩
  case program => exact items_eq_unrolled bottom rest hlevels hrounds

/-- A program of one import: what stands behind three rounds, or inside a level more than may be opened, could as
well fail at once. -/
theorem reading_ends_of_import :
    let tokens : List Token := [⟨.kwImport, "import", default⟩, ⟨.string, "a", default⟩]
    let c := Cursor.start tokens ""
    let bottom : Inner := ⟨fun _ => unexpected "", unexpected ""⟩
    let rest : List Item → Reading (List Item) := fun _ => unexpected ""
    (∃ a d, Production.imports.parse c = .done a d ∧ c.index < d.index)
      ∧ whileAt insideProgram (collect (item tied)) [] c = unrolled insideProgram (collect (item tied)) rest 3 [] c
      ∧ Production.imports.reading (nestedOver bottom (maxNesting + 1)) c = Production.imports.parse c
      ∧ items c = unrolledItems bottom (maxNesting + 1) rest 3 c := by
  intro tokens c bottom rest
  obtain ⟨⟨hproduction, -⟩, hloop, -, hlevels, hprogram⟩ := reading_ends
  have hdone : Production.imports.parse c
      = .done (.stmt (.imports [⟨"a", none, default⟩] default)) ⟨tokens.reverse, [], .empty default, "", 0⟩ := rfl
  exact ⟨⟨_, _, hdone, (hproduction .imports nofun).lt hdone⟩, (hloop .items).2 rest 3 [] c (by decide),
    hlevels bottom _ .imports c (by decide), hprogram tokens "" bottom _ rest 3 (by decide) (by decide)⟩

end WattFront
