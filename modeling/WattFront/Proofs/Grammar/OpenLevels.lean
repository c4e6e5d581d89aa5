import WattFront.Proofs.Grammar.Congruence
import WattFront.Proofs.Grammar.Rounds

/-! # The levels that are open at a failure

An expression closes its level even if it fails, so the cursor that a failure leaves behind does not say how
many levels were open when it arose. `heldOpen` reads the same grammar and leaves the level of a failing
expression open, as a block does by itself. `items_holds` says that nothing else is different, so
`levelsAtFailure` is the number of levels that were open around the token where a program failed.

* `Outcome.Holds`, `Reading.Holds` — outcomes that differ in the levels of a failure only;
* `Reading.Holds.congruence` — such readings, put together;
* `holds_nested`, `items_holds` — the result for expressions, blocks and programs.
-/

namespace WattFront

open Grammar

/-! ## Expressions that fail with their level open -/

def Grammar.heldExpression (inner : Inner) (power : BindingPower) : Reading Expr := do
  Reading.enter
  let e ← operations inner power
  Reading.leave
  pure e

/-- The expressions and blocks that open at most the given number of levels, and close none of them if they
fail. -/
def Grammar.heldOpen : Nat → Inner
  | 0 => ⟨fun _ => Reading.tooDeep, Reading.tooDeep⟩
  | levels + 1 =>
    { expr := heldExpression (heldOpen levels)
      block := block (heldOpen levels) }

def Grammar.heldItem : Reading Item :=
  fun c => item (heldOpen c.room) c

def Grammar.heldItems : Reading (List Item) :=
  Reading.many insideProgram heldItem

/-- How many expressions and blocks are open around the token where a program fails. -/
def Grammar.levelsAtFailure (tokens : List Token) (file : String) : Nat :=
  (heldItems (.start tokens file)).cursor.depth

/-! ## Readings that differ in the levels of a failure only -/

/-- Two outcomes of readings that start at the given depth: both are done, at that depth, or both have failed,
the second one without closing the levels it has opened. -/
inductive Outcome.Holds {α : Type} (depth : Nat) : Outcome α → Outcome α → Prop
  | done {a d} (hdepth : d.depth = depth) : Outcome.Holds depth (.done a d) (.done a d)
  | failed {f d levels} (hlevels : depth ≤ levels) :
    Outcome.Holds depth (.failed f d) (.failed f { d with depth := levels })

namespace Reading

variable {α β : Type}

/-- Two readings that differ in the levels of a failure only. -/
class Holds (x y : Reading α) : Prop where
  holds (x y) (c : Cursor) : (x c).Holds c.depth (y c)

namespace Holds

variable {x y : Reading α} {f g : α → Reading β} {c : Cursor}

/-- A failure where no level has been opened. -/
theorem failed_here {f : Failure} : Outcome.Holds (α := α) c.depth (.failed f c) (.failed f c) :=
  .failed (d := c) (Nat.le_refl _)

/-- Readings that differ in the levels of a failure only are done in the same way. -/
theorem done_iff [h : Holds x y] {a : α} {d : Cursor} : x c = .done a d ↔ y c = .done a d := by
  have hholds := h.holds c
  generalize x c = o at hholds
  generalize y c = o' at hholds
  cases hholds with
  | done => exact Iff.rfl
  | failed => exact ⟨nofun, nofun⟩

/-- A reading that is done has closed the levels it has opened. -/
theorem depth_eq [h : Holds x y] {a : α} {d : Cursor} (hdone : x c = .done a d) : d.depth = c.depth := by
  have hholds := h.holds c
  rw [hdone] at hholds
  generalize y c = o at hholds
  cases hholds with
  | done hdepth => exact hdepth

theorem accepts [hholds : Holds x y] {guard : TokenKind → Prop} {levels : Nat} {form : Form α}
    (h : x.AcceptsAt guard levels form) : y.AcceptsAt guard levels form := by
  intro c hguard room a d
  rw [← hholds.done_iff, h hguard room]

theorem bind (hx : Holds x y) (hf : ∀ a, Holds (f a) (g a)) : Holds (x >>= f) (y >>= g) where
  holds c := by
    rw [bind_apply, bind_apply]
    have hholds := hx.holds c
    generalize x c = o at hholds
    generalize y c = o' at hholds
    cases hholds with
    | @done a d hdepth => exact hdepth ▸ (hf a).holds d
    | failed hlevels => exact .failed hlevels

def congruence : Congruence where
  rel := Holds
  pure _ := ⟨fun _ => .done rfl⟩
  bind := bind
  look h := ⟨fun c => (h c c.depth).holds c⟩
  advance := ⟨fun c => .done c.depth_next⟩
  fail _ _ := ⟨fun _ => failed_here⟩

instance of_related [h : Related congruence x y] : Holds x y :=
  h.rel

/-! ## Levels -/

/-- A level around a reading: it is closed in the same way if the reading is done. -/
theorem around [hx : Holds x y] [hf : ∀ a, Holds (f a) (g a)] :
    Holds (do Reading.enter; let a ← x; Reading.leave; f a) (do Reading.enter; let a ← y; Reading.leave; g a) where
  holds c := by
    by_cases hroom : c.depth < maxNesting
    · rw [enter_bind _ hroom, enter_bind _ hroom, bind_apply, bind_apply]
      have hholds := hx.holds { c with depth := c.depth + 1 }
      generalize x { c with depth := c.depth + 1 } = o at hholds
      generalize y { c with depth := c.depth + 1 } = o' at hholds
      cases hholds with
      | @done a d hdepth =>
        have hleave : d.leave.depth = c.depth := by rw [Cursor.leave, hdepth, Nat.add_sub_cancel]
        exact hleave ▸ (hf a).holds d.leave
      | failed hlevels => exact .failed (Nat.le_of_succ_le hlevels)
    · rw [bind_apply, bind_apply, Reading.enter, Cursor.enter?, if_neg hroom]
      exact failed_here

/-- An expression that fails closes its level, or leaves it open. -/
theorem within [hx : Holds x y] :
    Holds (Reading.within x) (do Reading.enter; let a ← y; Reading.leave; Pure.pure a) where
  holds c := by
    by_cases hroom : c.depth < maxNesting
    · rw [enter_bind _ hroom, bind_apply, Reading.within, Reading.enter, Cursor.enter?, if_pos hroom]
      have hholds := hx.holds { c with depth := c.depth + 1 }
      simp only
      generalize x { c with depth := c.depth + 1 } = o at hholds
      generalize y { c with depth := c.depth + 1 } = o' at hholds
      cases hholds with
      | @done a d hdepth =>
        refine .done ?_
        rw [Cursor.leave, hdepth, Nat.add_sub_cancel]
      | @failed f d levels hlevels => exact .failed (d := d.leave) (Nat.le_of_succ_le hlevels)
    · rw [bind_apply, Reading.within, Reading.enter, Cursor.enter?, if_neg hroom]
      exact failed_here

end Holds

end Reading

/-! ## Constructs -/

namespace Grammar

open Reading

class Inner.Holds (inner inner' : Inner) : Prop where
  expr (power : BindingPower) : Reading.Holds (inner.expr power) (inner'.expr power)
  block : Reading.Holds inner.block inner'.block

instance related_of_holds (inner inner' : Inner) [h : inner.Holds inner'] :
    Inner.Related Holds.congruence inner inner' :=
  ⟨fun power => ⟨h.expr power⟩, ⟨h.block⟩⟩

theorem holds_block (inner inner' : Inner) [inner.Holds inner'] : Holds (block inner) (block inner') := by
  rw [block_eq, block_eq]
  exact .around

/-- Expressions and blocks of any depth. -/
instance holds_nested (levels : Nat) : (nested levels).Holds (heldOpen levels) := by
  induction levels with
  | zero =>
    have hfull {α : Type} : Holds (tooDeep : Reading α) tooDeep := inferInstance
    exact ⟨fun _ => hfull, hfull⟩
  | succ levels ih => exact ⟨fun _ => Holds.within, holds_block _ _⟩

/-- The expressions and blocks of every level have their forms, also if a failure closes no level. -/
theorem heldOpen_spells (levels : Nat) : (heldOpen levels).Spells (Spelling.upTo levels) levels := by
  have hspells := nested_spells levels
  have hholds := holds_nested levels
  exact ⟨fun power => Holds.accepts (hspells.expr power), Holds.accepts hspells.block, hspells.exprOpens,
    hspells.blockOpens⟩

instance holds_heldItem : Holds (atCursor item) heldItem :=
  ⟨fun c => Holds.holds (item (nested c.room)) (item (heldOpen c.room)) c⟩

/-- The items of a program are read in the same way if a failure closes no level. -/
theorem items_holds : Holds items heldItems :=
  have : Related Holds.congruence (atCursor item) heldItem := ⟨holds_heldItem⟩
  inferInstanceAs (Holds (many insideProgram (atCursor item)) (many insideProgram heldItem))

end Grammar

end WattFront
