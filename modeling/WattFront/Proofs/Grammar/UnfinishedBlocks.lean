import WattFront.Proofs.Grammar.NestingBudget
import WattFront.Proofs.Grammar.Termination

/-! # Blocks that are left unfinished

An expression closes its level even if it fails, and a block only if it is done. So what is left open behind a failure
are the levels of the blocks that were unfinished when it arose, and nothing else. To count them, the grammar is read
with other ways to open and to close a level: if an expression opens none at all, the levels that are left open are
those of blocks.

* `Level`, `Levels` — ways to open and to close the levels of expressions and of blocks;
* `Grammar.nestedBy` — the grammar with other levels;
* `Reading.Tracks` — a reading does the same as another one, with other levels;
* `Scheme`, `unfinishedBlocks` — the constructs of the grammar, and the blocks that they leave unfinished;
* `unfinished_blocks_stay_open` — the result.
-/

namespace WattFront

open Grammar

/-! ## Other levels -/

/-- A way to open a level, if there is room for it, and to close it. -/
structure Level where
  open? : Cursor → Option Cursor
  close : Cursor → Cursor

namespace Level

/-- A level that is opened if there is room for it, with some way to close it. -/
def closedBy (close : Cursor → Cursor) : Level :=
  ⟨Cursor.enter?, close⟩

def counted : Level :=
  ⟨fun c => some (c.atDepth (c.depth + 1)), Cursor.leave⟩

def uncounted : Level :=
  ⟨some, id⟩

def enter (level : Level) : Reading Unit :=
  fun c => match level.open? c with
    | some c => .done () c
    | none => .failed c.tooDeep c

def leave (level : Level) : Reading Unit :=
  fun c => .done () (level.close c)

def closing {α : Type} (level : Level) (x : Reading α) : Reading α :=
  fun c => match x c with
    | .done a d => .done a (level.close d)
    | .failed failure d => .failed failure (level.close d)

/-- A level that counts as some number of levels, where there is room for it, until it is closed. -/
structure Counts (level : Level) (n : Nat) : Prop where
  opens {c : Cursor} (h : c.depth < maxNesting) : level.open? c = some (c.atDepth (c.depth + n))
  closes {c : Cursor} (h : n ≤ c.depth) : level.close c = c.atDepth (c.depth - n)

theorem counted_counts : counted.Counts 1 :=
  ⟨fun _ => rfl, fun _ => rfl⟩

theorem uncounted_counts : uncounted.Counts 0 :=
  ⟨fun _ => rfl, fun _ => rfl⟩

/-- It does not matter what closing a level does where no level is open. -/
theorem closedBy_counts {close : Cursor → Cursor} (h : ∀ c, 0 < c.depth → close c = c.leave) :
    (closedBy close).Counts 1 :=
  ⟨fun hroom => if_pos hroom, fun hdepth => h _ hdepth⟩

end Level

structure Levels where
  expr : Level
  block : Level

def Levels.ofBlocks : Levels :=
  ⟨.uncounted, .counted⟩

/-- The levels of the grammar, with some way to close them. -/
def Levels.closedBy (close : Cursor → Cursor) : Levels :=
  ⟨.closedBy close, .closedBy close⟩

namespace Grammar

open Reading

def blockBy (level : Level) (inner : Inner) : Reading Block := do
  level.enter
  let inside ← insideBlock inner
  level.leave
  pure ⟨inside.2, ← spanFrom inside.1.span.start⟩

/-- The expressions and blocks that open at most the given number of levels, of another kind. As everywhere, an
expression closes its level in any case, and a block only if it is done. -/
def nestedBy (kind : Levels) : Nat → Inner
  | 0 => ⟨fun _ => tooDeep, tooDeep⟩
  | levels + 1 =>
    { expr := fun power => kind.expr.enter >>= fun _ => kind.expr.closing (operations (nestedBy kind levels) power)
      block := blockBy kind.block (nestedBy kind levels) }

/-- With its own levels, this is the grammar. -/
theorem nestedBy_leave (levels : Nat) : nestedBy (.closedBy Cursor.leave) levels = nested levels := by
  induction levels with
  | zero => rfl
  | succ levels ih =>
    have hexpr (power : BindingPower) : expression (nested levels) power
        = (Level.closedBy Cursor.leave).enter >>= fun _ =>
          (Level.closedBy Cursor.leave).closing (operations (nested levels) power) :=
      within_eq _
    rw [nestedBy, ih, nested, blockBy, block_eq, funext hexpr]
    rfl

end Grammar

/-! ## Readings that do the same with other levels -/

/-- What comes of two runs, of which the first has some levels more open than the second, which starts at the given
depth: the same at the same place, with as many levels more open. -/
inductive Outcome.Tracks {α : Type} (gap depth : Nat) : Outcome α → Outcome α → Prop
  | done {a d} (hdepth : d.depth = depth) : Tracks gap depth (.done a (d.atDepth (d.depth + gap))) (.done a d)
  | failed {f d} (hdepth : depth ≤ d.depth) : Tracks gap depth (.failed f (d.atDepth (d.depth + gap))) (.failed f d)

namespace Reading

variable {α β : Type} {levels gap : Nat}

/-- Two readings do the same at every place where the first one has just enough room, and some levels more open. -/
def Tracks (levels gap : Nat) (x y : Reading α) : Prop :=
  ∀ c : Cursor, (c.atDepth (c.depth + gap)).room = levels →
    (x (c.atDepth (c.depth + gap))).Tracks gap c.depth (y c)

namespace Tracks

variable {x y : Reading α}

theorem bind {f g : α → Reading β} (hx : Tracks levels gap x y) (hf : ∀ a, Tracks levels gap (f a) (g a)) :
    Tracks levels gap (x >>= f) (y >>= g) := by
  intro c hroom
  have hc := hx c hroom
  rw [bind_apply, bind_apply]
  generalize x (c.atDepth (c.depth + gap)) = o at hc
  generalize y c = o' at hc
  cases hc with
  | @done a d hdepth =>
    have hroom' : (d.atDepth (d.depth + gap)).room = levels := by rw [hdepth]; exact hroom
    exact hdepth ▸ hf a d hroom'
  | failed hdepth => exact .failed hdepth

theorem advance : Tracks levels gap Reading.advance Reading.advance := by
  intro c _
  rw [Reading.advance, Reading.advance, c.next_atDepth_add gap]
  exact .done c.depth_next

theorem tooDeep : Tracks levels gap (Reading.tooDeep : Reading α) Reading.tooDeep :=
  fun _ _ => .failed (Nat.le_refl _)

/-- A level that counts as `n` of them in the second run: inside it, the first run has `gap'` levels more open. -/
theorem enter {level : Level} {n gap' : Nat} (hlevel : level.Counts n) (hgap : gap' + n = gap + 1)
    {f g : Unit → Reading α}
    (h : ∀ c d : Cursor, (c.atDepth (c.depth + gap)).room = levels + 1 → d.depth = c.depth + n →
      (d.atDepth (d.depth + gap')).room = levels →
      (f () (d.atDepth (d.depth + gap'))).Tracks gap c.depth (g () d)) :
    Tracks (levels + 1) gap (Reading.enter >>= f) (level.enter >>= g) := by
  intro c hroom
  have hdepth : c.depth + n + gap' = c.depth + gap + 1 := by omega
  have hfree : maxNesting - (c.depth + gap) = levels + 1 := hroom
  have hinside := h c (c.atDepth (c.depth + n)) hroom rfl (by
    rw [Cursor.room, Cursor.depth_atDepth, Cursor.depth_atDepth]
    omega)
  rw [Cursor.atDepth_atDepth, Cursor.depth_atDepth, hdepth] at hinside
  have hopens : (level.enter >>= g) c = g () (c.atDepth (c.depth + n)) := by
    rw [bind_apply, Level.enter, hlevel.opens (by omega)]
    rfl
  have hdeeper : (c.atDepth (c.depth + gap)).depth < maxNesting := by
    rw [Cursor.depth_atDepth]
    omega
  rw [enter_bind f hdeeper, hopens]
  exact hinside

/-- Closing such a level. -/
theorem leave {level : Level} {n gap' : Nat} (hlevel : level.Counts n) (hgap : gap' + n = gap + 1) {d : Cursor}
    (hd : n ≤ d.depth) :
    (level.close d).depth = d.depth - n
      ∧ (d.atDepth (d.depth + gap')).leave = (level.close d).atDepth ((level.close d).depth + gap) := by
  rw [hlevel.closes hd, Cursor.leave_atDepth, Cursor.atDepth_atDepth, Cursor.depth_atDepth]
  exact ⟨rfl, congrArg d.atDepth (by omega)⟩

/-- A level that is closed in any case. -/
theorem within {level : Level} {n gap' : Nat} (hlevel : level.Counts n) (hgap : gap' + n = gap + 1)
    (hx : Tracks levels gap' x y) :
    Tracks (levels + 1) gap (Reading.within x) (level.enter >>= fun _ => level.closing y) := by
  rw [within_eq]
  refine enter hlevel hgap fun c d _ hd hroom => ?_
  have hrun := hx d hroom
  rw [closing, Level.closing]
  generalize x (d.atDepth (d.depth + gap')) = o at hrun
  generalize y d = o' at hrun
  cases hrun with
  | @done a e hdepth =>
    obtain ⟨hclosed, hleave⟩ := leave hlevel hgap (d := e) (by omega)
    simp only [hleave]
    exact .done (by omega)
  | @failed f e hdepth =>
    obtain ⟨hclosed, hleave⟩ := leave hlevel hgap (d := e) (by omega)
    simp only [hleave]
    exact .failed (by omega)

/-- A level that counts as one, and is closed only if what is inside it is done. -/
theorem around {level : Level} (hlevel : level.Counts 1) {f g : α → Reading β} (hx : Tracks levels gap x y)
    (hf : ∀ a, Tracks (levels + 1) gap (f a) (g a)) :
    Tracks (levels + 1) gap (do Reading.enter; let a ← x; Reading.leave; f a)
      (do level.enter; let a ← y; level.leave; g a) := by
  have hgap : gap + 1 = gap + 1 := rfl
  refine enter hlevel hgap fun c d houter hd hroom => ?_
  have hrun := hx d hroom
  rw [bind_apply, bind_apply]
  generalize x (d.atDepth (d.depth + gap)) = o at hrun
  generalize y d = o' at hrun
  cases hrun with
  | @done a e hdepth =>
    obtain ⟨hclosed, hleave⟩ := leave (d := e) hlevel hgap (by omega)
    have hback : (level.close e).depth = c.depth := by omega
    have hlast := hf a (level.close e) (by rw [hback]; exact houter)
    rw [← hleave, hback] at hlast
    exact hlast
  | failed hdepth => exact .failed (by omega)

end Tracks

def tracking (levels gap : Nat) : Congruence where
  rel := Tracks levels gap
  pure _ := fun _ _ => .done rfl
  bind := Tracks.bind
  look h := fun c => h (c.atDepth (c.depth + gap)) c.depth c
  advance := .advance
  fail _ _ := fun _ _ => .failed (Nat.le_refl _)

end Reading

namespace Grammar

open Reading

variable {kind : Levels} {n : Nat}

/-- The grammar with other levels, of which those of an expression count as at most one. -/
theorem tracking_nested (hn : n ≤ 1) (hexpr : kind.expr.Counts n) (hblock : kind.block.Counts 1) (levels gap : Nat) :
    Inner.Related (tracking levels gap) (nested levels) (nestedBy kind levels) := by
  induction levels generalizing gap with
  | zero => exact ⟨fun _ => ⟨.tooDeep⟩, ⟨.tooDeep⟩⟩
  | succ levels ih =>
    refine ⟨fun power => ⟨?expr⟩, ⟨?block⟩⟩
    case expr =>
      -- Inside an expression that does not count, the ordinary level makes the difference.
      have hinner := ih (gap + 1 - n)
      have hoperations : Related (tracking levels (gap + 1 - n)) (operations (nested levels) power)
        (operations (nestedBy kind levels) power) := inferInstance
      exact Tracks.within hexpr (by omega) hoperations.rel
    case block =>
      have hinner := ih gap
      have hinside : Related (tracking levels gap) (insideBlock (nested levels))
        (insideBlock (nestedBy kind levels)) := inferInstance
      have hlevel : Tracks (levels + 1) gap (block (nested levels)) (blockBy kind.block (nestedBy kind levels)) := by
        rw [block_eq]
        exact .around hblock hinside.rel fun read => (related_behindBlock (K := tracking (levels + 1) gap) read).rel
      exact hlevel

/-! ## Constructs -/

/-- What the constructs of the grammar do with the expressions and blocks inside them. -/
inductive Scheme : {α : Type} → (Inner → Reading α) → Prop
  | production (p : Production) : Scheme fun inner => p.reading inner
  | operations (power : BindingPower) : Scheme fun inner => Grammar.operations inner power
  | arm : Scheme Grammar.arm
  | expressions (close : TokenKind) : Scheme fun inner => commaList close (inner.expr .lowest)
  | pairs (close : TokenKind) : Scheme fun inner => commaList close (pair inner)
  | singleImport : Scheme fun _ => Grammar.singleImport
  | importList (close : TokenKind) : Scheme fun _ => commaList close Grammar.singleImport
  | traitNames : Scheme fun _ => Grammar.traitNames
  | topLevelStatement : Scheme Grammar.topLevelStatement
  | items : Scheme fun inner => many insideProgram (item inner)

/-- Every construct is a scheme, with the expressions and blocks that there is room for. -/
theorem Construct.exists_scheme {α : Type} {x : Reading α} (h : Construct x) : ∃ k, Scheme k ∧ atCursor k = x := by
  cases h with
  | production p => exact ⟨_, .production p, rfl⟩
  | operations power => exact ⟨_, .operations power, rfl⟩
  | arm => exact ⟨_, .arm, rfl⟩
  | expressions close => exact ⟨_, .expressions close, rfl⟩
  | pairs close => exact ⟨_, .pairs close, rfl⟩
  | singleImport => exact ⟨_, .singleImport, rfl⟩
  | importList close => exact ⟨_, .importList close, rfl⟩
  | traitNames => exact ⟨_, .traitNames, rfl⟩
  | topLevelStatement => exact ⟨_, .topLevelStatement, rfl⟩
  | items =>
    have hitems : atCursor (fun inner => many insideProgram (item inner)) = many insideProgram (item tied) :=
      atCursor_eq fun _ _ _ _ => .many
    exact ⟨_, .items, hitems.trans items_eq.symm⟩

/-- A scheme takes over whatever congruence holds between the expressions and blocks inside it. -/
theorem Scheme.related {K : Congruence} (inner inner' : Inner) [Inner.Related K inner inner'] {α : Type}
    {k : Inner → Reading α} (h : Scheme k) : Related K (k inner) (k inner') := by
  cases h with
  | production p => exact related_reading inner inner' p
  | operations power => exact related_operations inner inner' power
  | arm => exact related_arm inner inner'
  | expressions close | pairs close | importList close => exact related_commaList close
  | singleImport => exact related_singleImport
  | traitNames => exact related_traitNames
  | topLevelStatement => exact related_topLevelStatement inner inner'
  | items => exact .many

/-- The blocks that have been opened, but not been closed again, where a run stops: the levels that are left open if
blocks count and expressions do not. -/
def unfinishedBlocks {α : Type} (k : Inner → Reading α) (c : Cursor) : Nat :=
  (k (nestedBy .ofBlocks c.room) (c.atDepth 0)).cursor.depth

/-- A construct does the same with other levels, at a place where fewer of them are open. -/
theorem Scheme.tracks {α : Type} {k : Inner → Reading α} (h : Scheme k) (kind : Levels) (hn : n ≤ 1)
    (hexpr : kind.expr.Counts n) (hblock : kind.block.Counts 1) {c : Cursor} {depth gap : Nat}
    (hdepth : depth + gap = c.depth) :
    (atCursor k c).Tracks gap depth (k (nestedBy kind c.room) (c.atDepth depth)) := by
  have hinner := tracking_nested hn hexpr hblock c.room gap
  have hself : (c.atDepth depth).atDepth ((c.atDepth depth).depth + gap) = c := by
    rw [Cursor.atDepth_atDepth, Cursor.depth_atDepth, hdepth, Cursor.atDepth_self]
  have hrun := (h.related (K := tracking c.room gap) (nested c.room) (nestedBy kind c.room)).rel (c.atDepth depth)
    (by rw [hself])
  rwa [hself] at hrun

theorem Scheme.tracks_blocks {α : Type} {k : Inner → Reading α} (h : Scheme k) (c : Cursor) :
    (atCursor k c).Tracks c.depth 0 (k (nestedBy .ofBlocks c.room) (c.atDepth 0)) :=
  h.tracks .ofBlocks (Nat.zero_le 1) Level.uncounted_counts Level.counted_counts (Nat.zero_add c.depth)

end Grammar

/-- What a run leaves open. A run that is done has closed every level that it has opened, and one that fails has
closed those of its expressions: what is left open are the levels of the blocks that it has begun and not finished.
They are counted by a run of the same grammar with the same result at the same place, in which blocks open and close
levels and expressions do not. And no run ever closes a level where none is open: it does not matter what that would
do. -/
theorem unfinished_blocks_stay_open :
    (∀ {α : Type} {x : Reading α}, Construct x → ∃ k, Scheme k ∧ atCursor k = x)
      ∧ (∀ levels, nestedBy (.closedBy Cursor.leave) levels = nested levels)
      ∧ ∀ {α : Type} {k : Inner → Reading α}, Scheme k → ∀ c : Cursor,
        (∀ a d, atCursor k c = .done a d →
            d.depth = c.depth ∧ k (nestedBy .ofBlocks c.room) (c.atDepth 0) = .done a (d.atDepth 0))
          ∧ (∀ f d, atCursor k c = .failed f d →
            d.depth = c.depth + unfinishedBlocks k c
              ∧ k (nestedBy .ofBlocks c.room) (c.atDepth 0) = .failed f (d.atDepth (unfinishedBlocks k c)))
          ∧ ∀ close : Cursor → Cursor, (∀ d, 0 < d.depth → close d = d.leave) →
            k (nestedBy (.closedBy close) c.room) c = atCursor k c := by
  refine ⟨Construct.exists_scheme, nestedBy_leave, fun {α k} h c =>
    ⟨fun a d hdone => ?done, fun f d hfailed => ?failed, fun close hclose => ?close⟩⟩
  case done =>
    have hrun := h.tracks_blocks c
    rw [hdone] at hrun
    generalize k (nestedBy .ofBlocks c.room) (c.atDepth 0) = o at hrun ⊢
    cases hrun with
    | @done a d hdepth =>
      have hself : (d.atDepth (d.depth + c.depth)).atDepth 0 = d := by
        rw [Cursor.atDepth_atDepth, ← hdepth, Cursor.atDepth_self]
      exact ⟨by rw [Cursor.depth_atDepth, hdepth, Nat.zero_add], by rw [hself]⟩
  case failed =>
    have hrun := h.tracks_blocks c
    rw [unfinishedBlocks]
    rw [hfailed] at hrun
    generalize k (nestedBy .ofBlocks c.room) (c.atDepth 0) = o at hrun ⊢
    cases hrun with
    | @failed f d hdepth => exact ⟨Nat.add_comm _ _, rfl⟩
  case close =>
    have hcounts := Level.closedBy_counts hclose
    have hrun := h.tracks (.closedBy close) (Nat.le_refl 1) hcounts hcounts (Nat.add_zero c.depth)
    rw [Cursor.atDepth_self] at hrun
    generalize k (nestedBy (.closedBy close) c.room) c = o at hrun ⊢
    generalize atCursor k c = o' at hrun ⊢
    cases hrun <;> rfl

/-- A block with a loop, and the same without an element of a list: two blocks are unfinished then, and the levels of
the list and of its missing element are closed. -/
theorem unfinished_blocks_stay_open_of_list :
    let front : List Token :=
      [⟨.openCurly, "\x7b", default⟩, ⟨.kwWhile, "while", default⟩, ⟨.kwTrue, "true", default⟩,
        ⟨.openCurly, "\x7b", default⟩, ⟨.kwReturn, "return", default⟩, ⟨.openBracket, "[", default⟩]
    let back : List Token :=
      [⟨.closeBracket, "]", default⟩, ⟨.closeCurly, "\x7d", default⟩, ⟨.closeCurly, "\x7d", default⟩]
    let k : Inner → Reading Fragment := fun inner => Production.block.reading inner
    let c := (Cursor.start (front ++ back) "").atDepth 5
    let d := (Cursor.start (front ++ ⟨.dot, ".", default⟩ :: back) "").atDepth 5
    let close : Cursor → Cursor := fun c => if c.depth = 0 then c.atDepth 9 else c.leave
    (∃ k, Scheme k ∧ atCursor k = Production.block.parse)
      ∧ Scheme k
      ∧ (∃ a e, atCursor k c = .done a e ∧ e.depth = 5)
      ∧ (∃ f e, atCursor k d = .failed f e ∧ f.cause = .unexpectedToken "expression" "." ∧ e.depth = 5 + 2)
      ∧ unfinishedBlocks k d = 2
      ∧ k (nestedBy (.closedBy close) d.room) d = atCursor k d := by
  intro front back k c d close
  obtain ⟨hconstruct, -, hopen⟩ := unfinished_blocks_stay_open
  have hscheme : Scheme k := .production .block
  have hdone : ∃ a, atCursor k c = .done a ⟨(front ++ back).reverse, [], .empty default, "", 5⟩ := ⟨_, rfl⟩
  have hfailed : atCursor k d = .failed ⟨.unexpectedToken "expression" ".", default⟩
      ⟨front.reverse, ⟨.dot, ".", default⟩ :: back, .empty default, "", 7⟩ := rfl
  obtain ⟨a, hdone⟩ := hdone
  have hdepth : 7 = 5 + unfinishedBlocks k d := ((hopen hscheme d).2.1 _ _ hfailed).1
  have hclose : ∀ e, 0 < e.depth → close e = e.leave := fun e he => if_neg (Nat.ne_of_gt he)
  exact ⟨hconstruct (.production .block), hscheme, ⟨_, _, hdone, ((hopen hscheme c).1 _ _ hdone).1⟩,
    ⟨_, _, hfailed, rfl, rfl⟩, by omega, (hopen hscheme d).2.2 close hclose⟩

end WattFront
