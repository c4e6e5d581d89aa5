import Mathlib.Data.Nat.Find
import WattFront.Proofs.Grammar.Lookahead

/-! # The number of open levels is a budget

A run that starts with more levels open has less room, and that is all there is to it: it does the same as a run
with fewer levels open, until it fails since it has run out of room. So what a construct is at a place needs a
certain number of levels, and it is accepted there exactly where so many may still be opened.

* `Outcome.Deeper` — what comes of two runs, of which the first has some levels more open;
* `Reading.deeper` — the congruence of readings that differ in the room they have only;
* `Construct.deeper` — every construct of the grammar is one;
* `nesting_is_budget` — the result.
-/

namespace WattFront

open Grammar

/-- What comes of a run with some levels more open than another one, which starts at the given depth: the same, at
the same place with as many levels more open, or a failure since there is no room. -/
inductive Outcome.Deeper {α : Type} (gap depth : Nat) : Outcome α → Outcome α → Prop
  | done {a d} (hdepth : d.depth = depth) : Deeper gap depth (.done a (d.atDepth (d.depth + gap))) (.done a d)
  | failed {f d} (hdepth : depth ≤ d.depth) : Deeper gap depth (.failed f (d.atDepth (d.depth + gap))) (.failed f d)
  | tooDeep {f d o} (hcause : f.cause = .nestingTooDeep maxNesting) : Deeper gap depth (.failed f d) o

/-- A token is consumed in the same way with more levels open. -/
theorem Cursor.next_atDepth_add (c : Cursor) (gap : Nat) :
    (c.atDepth (c.depth + gap)).next = c.next.atDepth (c.next.depth + gap) := by
  rw [next_atDepth, c.depth_next]

namespace Reading

variable {α β : Type} {gap : Nat}

/-- Two readings differ in the room they have only, if the first one starts with some levels more open. -/
def Deeper (gap : Nat) (x y : Reading α) : Prop :=
  ∀ c : Cursor, (x (c.atDepth (c.depth + gap))).Deeper gap c.depth (y c)

namespace Deeper

variable {x y : Reading α}

theorem bind {f g : α → Reading β} (hx : Deeper gap x y) (hf : ∀ a, Deeper gap (f a) (g a)) :
    Deeper gap (x >>= f) (y >>= g) := by
  intro c
  have hc := hx c
  rw [bind_apply, bind_apply]
  generalize x (c.atDepth (c.depth + gap)) = o at hc
  generalize y c = o' at hc
  cases hc with
  | @done a d hdepth => exact hdepth ▸ hf a d
  | failed hdepth => exact .failed hdepth
  | tooDeep hcause => exact .tooDeep hcause

theorem advance : Deeper gap Reading.advance Reading.advance := by
  intro c
  rw [Reading.advance, Reading.advance, c.next_atDepth_add gap]
  exact .done c.depth_next

theorem tooDeep : Deeper gap (Reading.tooDeep : Reading α) y :=
  fun _ => .tooDeep rfl

/-- A level: the run with more levels open may not have the room for it. -/
theorem enter {f g : Unit → Reading α}
    (h : ∀ c : Cursor, 0 < c.depth →
      (f () (c.atDepth (c.depth + gap))).Deeper gap (c.depth - 1) (g () c)) :
    Deeper gap (Reading.enter >>= f) (Reading.enter >>= g) := by
  intro c
  by_cases hroom : c.depth + gap < maxNesting
  · rw [enter_bind f (c := c.atDepth (c.depth + gap)) hroom, enter_bind g (by omega)]
    have hinside := h (c.atDepth (c.depth + 1)) (Nat.succ_pos _)
    rw [Cursor.atDepth_atDepth, Cursor.depth_atDepth, Nat.add_right_comm, Nat.add_sub_cancel] at hinside
    exact hinside
  · have hfull : ¬ (c.atDepth (c.depth + gap)).depth < maxNesting := hroom
    rw [bind_apply, Reading.enter, Cursor.enter?, if_neg hfull]
    exact .tooDeep rfl

/-- The cursor behind a level that is closed again. -/
theorem leave_atDepth {d : Cursor} (h : 0 < d.depth) :
    (d.atDepth (d.depth + gap)).leave = d.leave.atDepth (d.leave.depth + gap) := by
  have hdepth : d.depth + gap - 1 = d.depth - 1 + gap := by omega
  rw [Cursor.leave_atDepth, hdepth]
  rfl

end Deeper

def deeper (gap : Nat) : Congruence where
  rel := Deeper gap
  pure _ _ := .done rfl
  bind := Deeper.bind
  look h := fun c => h (c.atDepth (c.depth + gap)) c.depth c
  advance := .advance
  fail _ _ _ := .failed (Nat.le_refl _)

theorem deeper_encloses : (deeper gap).Encloses (deeper gap) where
  within {α x y} hx := by
    rw [within_eq, within_eq]
    refine Deeper.enter fun c hc => ?_
    -- Inside there is a level open on both sides, and closing it leaves the gap as it is.
    have hrun := hx c
    rw [closing, closing]
    generalize x (c.atDepth (c.depth + gap)) = o at hrun
    generalize y c = o' at hrun
    cases hrun with
    | @done a d hdepth =>
      simp only [Deeper.leave_atDepth (hdepth ▸ hc)]
      exact .done (congrArg (· - 1) hdepth)
    | @failed f d hdepth =>
      simp only [Deeper.leave_atDepth (Nat.lt_of_lt_of_le hc hdepth)]
      exact .failed (Nat.sub_le_sub_right hdepth 1)
    | tooDeep hcause => cases o' <;> exact .tooDeep hcause
  around {α β x y f g} hx hf := by
    refine Deeper.enter fun c hc => ?_
    have hrun := hx c
    rw [bind_apply, bind_apply]
    generalize x (c.atDepth (c.depth + gap)) = o at hrun
    generalize y c = o' at hrun
    cases hrun with
    | @done a d hdepth =>
      have hleave : d.leave.depth = c.depth - 1 := congrArg (· - 1) hdepth
      simp only [Outcome.bind, leave_bind, Deeper.leave_atDepth (hdepth ▸ hc)]
      exact hleave ▸ hf a d.leave
    | failed hdepth => exact .failed (Nat.le_trans (Nat.sub_le _ 1) hdepth)
    | tooDeep hcause => exact .tooDeep hcause

end Reading

/-! ## Constructs -/

namespace Grammar

open Reading

variable {gap : Nat}

/-- Expressions and blocks with less room, and with more. -/
theorem deeper_nested {levels levels' : Nat} (h : levels ≤ levels') :
    Inner.Related (deeper gap) (nested levels) (nested levels') := by
  induction levels generalizing levels' with
  | zero => exact ⟨fun _ => ⟨.tooDeep⟩, ⟨.tooDeep⟩⟩
  | succ levels ih =>
    obtain ⟨levels', rfl⟩ := Nat.exists_eq_succ_of_ne_zero (Nat.ne_zero_of_lt h)
    have hinner := ih (Nat.le_of_succ_le_succ h)
    exact related_level deeper_encloses (nested levels) (nested levels')

theorem deeper_ties (gap : Nat) : (deeper gap).Ties := by
  intro α construct h c
  have hroom : (c.atDepth (c.depth + gap)).room ≤ c.room := Nat.sub_le_sub_left (Nat.le_add_right _ _) _
  have hnested : Inner.Related (deeper gap) (nested (c.atDepth (c.depth + gap)).room) (nested c.room) :=
    deeper_nested hroom
  exact h _ _ c

/-- Every construct of the grammar depends on the open levels in the room that they leave only. -/
theorem Construct.deeper {α : Type} {x : Reading α} (h : Construct x) (gap : Nat) : Deeper gap x x :=
  h.related (deeper_ties gap)

end Grammar

/-! ## Thresholds -/

def Reading.AcceptsFrom {α : Type} (x : Reading α) (c : Cursor) (depth : Nat) : Prop :=
  ∃ a d, x (c.atDepth depth) = .done a d

namespace Grammar.Construct

open Reading

variable {α : Type} {x : Reading α} {c : Cursor} {depth depth' : Nat}

/-- Two runs at a place, of which the first one has more levels open. -/
theorem compare (h : Construct x) (c : Cursor) (hle : depth' ≤ depth) :
    (x (c.atDepth depth)).Deeper (depth - depth') depth' (x (c.atDepth depth')) := by
  have hrun := h.deeper (depth - depth') (c.atDepth depth')
  rwa [Cursor.atDepth_atDepth, Cursor.depth_atDepth, Nat.add_sub_cancel' hle] at hrun

theorem done_of_done (h : Construct x) (hle : depth' ≤ depth) {a : α} {e : Cursor}
    (hdone : x (c.atDepth depth) = .done a e) : x (c.atDepth depth') = .done a (e.atDepth depth') := by
  have hrun := h.compare c hle
  rw [hdone] at hrun
  generalize x (c.atDepth depth') = o at hrun ⊢
  cases hrun with
  | @done a d hdepth => rw [Cursor.atDepth_atDepth, ← hdepth, Cursor.atDepth_self]

theorem failed_of_failed (h : Construct x) (hle : depth' ≤ depth) {f : Failure} {e : Cursor}
    (hfailed : x (c.atDepth depth) = .failed f e) (hcause : f.cause ≠ .nestingTooDeep maxNesting) :
    x (c.atDepth depth') = .failed f (e.atDepth (e.depth - (depth - depth'))) := by
  have hrun := h.compare c hle
  rw [hfailed] at hrun
  generalize x (c.atDepth depth') = o at hrun ⊢
  cases hrun with
  | @failed f d hdepth =>
    rw [Cursor.atDepth_atDepth, Cursor.depth_atDepth, Nat.add_sub_cancel, Cursor.atDepth_self]
  | tooDeep htooDeep => exact absurd htooDeep hcause

theorem tooDeep_of_done (h : Construct x) (hle : depth' ≤ depth) {a : α} {e e' : Cursor} {f : Failure}
    (hdone : x (c.atDepth depth') = .done a e) (hfailed : x (c.atDepth depth) = .failed f e') :
    f.cause = .nestingTooDeep maxNesting := by
  have hrun := h.compare c hle
  rw [hfailed, hdone] at hrun
  cases hrun with
  | tooDeep hcause => exact hcause

theorem acceptsFrom_mono (h : Construct x) (hle : depth' ≤ depth) (haccepts : x.AcceptsFrom c depth) :
    x.AcceptsFrom c depth' := by
  obtain ⟨a, e, hdone⟩ := haccepts
  exact ⟨a, _, h.done_of_done hle hdone⟩

/-- What is accepted with some number of levels open needs a certain number of levels, and is accepted wherever
so many may still be opened. -/
theorem threshold (h : Construct x) (hsome : x.AcceptsFrom c depth) (hdepth : depth ≤ maxNesting) :
    ∃! needed, needed ≤ maxNesting ∧
      ∀ depth ≤ maxNesting, x.AcceptsFrom c depth ↔ depth + needed ≤ maxNesting := by
  classical
  have hexists : ∃ room, room ≤ maxNesting ∧ x.AcceptsFrom c (maxNesting - room) :=
    ⟨maxNesting - depth, Nat.sub_le _ _, by rwa [Nat.sub_sub_self hdepth]⟩
  obtain ⟨hneeded, haccepts⟩ := Nat.find_spec hexists
  refine ⟨Nat.find hexists, ⟨hneeded, fun depth hdepth => ⟨fun hdone => ?least, fun hroom => ?enough⟩⟩, ?unique⟩
  case least =>
    have hle := Nat.find_min' hexists ⟨Nat.sub_le maxNesting depth, by rwa [Nat.sub_sub_self hdepth]⟩
    omega
  case enough => exact h.acceptsFrom_mono (by omega) haccepts
  case unique =>
    rintro other ⟨hother, hiff⟩
    have hat := (hiff (maxNesting - Nat.find hexists) (Nat.sub_le _ _)).1 haccepts
    have hmin := Nat.find_min' hexists ⟨hother, (hiff (maxNesting - other) (Nat.sub_le _ _)).2 (by omega)⟩
    omega

end Grammar.Construct

/-- The number of open levels is only a budget, for every construct of the grammar and at every place. Of two runs
with different numbers of levels open, the one with fewer does what the other one does: it is done with the same
value at the same place, or it fails in the same way at the same place, unless the other one has run out of room.
So either no run is done, or there is exactly one number of levels that the construct needs, and the runs that are
done are those with room for as many. -/
theorem nesting_is_budget {α : Type} {x : Reading α} (h : Construct x) (c : Cursor) :
    (∀ depth' depth : Nat, depth' ≤ depth →
        (∀ a e, x (c.atDepth depth) = .done a e → x (c.atDepth depth') = .done a (e.atDepth depth'))
          ∧ (∀ f e, x (c.atDepth depth) = .failed f e → f.cause ≠ .nestingTooDeep maxNesting →
              x (c.atDepth depth') = .failed f (e.atDepth (e.depth - (depth - depth'))))
          ∧ ∀ a e f e', x (c.atDepth depth') = .done a e → x (c.atDepth depth) = .failed f e' →
              f.cause = .nestingTooDeep maxNesting)
      ∧ ((∀ depth ≤ maxNesting, ¬ x.AcceptsFrom c depth)
          ∨ ∃! needed, needed ≤ maxNesting ∧
              ∀ depth ≤ maxNesting, x.AcceptsFrom c depth ↔ depth + needed ≤ maxNesting) := by
  refine ⟨fun depth' depth hle => ⟨fun a e => h.done_of_done hle, fun f e => h.failed_of_failed hle,
    fun a e f e' => h.tooDeep_of_done hle⟩, ?_⟩
  by_cases hsome : ∃ depth ≤ maxNesting, x.AcceptsFrom c depth
  · obtain ⟨depth, hdepth, haccepts⟩ := hsome
    exact .inr (h.threshold haccepts hdepth)
  · exact .inl fun depth hdepth haccepts => hsome ⟨depth, hdepth, haccepts⟩

/-- A list with one element needs one level. -/
theorem nesting_is_budget_of_list :
    let tokens : List Token :=
      [⟨.openBracket, "[", default⟩, ⟨.kwTrue, "true", default⟩, ⟨.closeBracket, "]", default⟩]
    let c := Cursor.start tokens ""
    let x := Production.list.parse
    x.AcceptsFrom c 0
      ∧ (∃ f e, x (c.atDepth maxNesting) = .failed f e ∧ f.cause = .nestingTooDeep maxNesting)
      ∧ ∀ depth ≤ maxNesting, x.AcceptsFrom c depth ↔ depth + 1 ≤ maxNesting := by
  intro tokens c x
  obtain ⟨hruns, hthreshold⟩ := nesting_is_budget (.production .list) c
  have hdone : x (c.atDepth (maxNesting - 1))
      = .done (.expr (.list [.bool true default] default)) ⟨tokens.reverse, [], .empty default, "", 127⟩ := rfl
  have hfailed : x (c.atDepth maxNesting)
      = .failed ⟨.nestingTooDeep maxNesting, default⟩ ⟨tokens.take 1, tokens.drop 1, .empty default, "", 128⟩ := rfl
  have hlast : x.AcceptsFrom c (maxNesting - 1) := ⟨_, _, hdone⟩
  refine ⟨⟨_, _, (hruns 0 _ (Nat.zero_le _)).1 _ _ hdone⟩,
    ⟨_, _, hfailed, (hruns _ _ (Nat.sub_le _ 1)).2.2 _ _ _ _ hdone hfailed⟩, fun depth hdepth => ?_⟩
  obtain hnone | ⟨needed, ⟨-, hneeded⟩, -⟩ := hthreshold
  · exact absurd hlast (hnone _ (Nat.sub_le _ 1))
  · have hroom := (hneeded _ (Nat.sub_le _ 1)).1 hlast
    have hfull : ¬ maxNesting + needed ≤ maxNesting := by
      intro hle
      obtain ⟨a, e, hfulldone⟩ := (hneeded maxNesting (Nat.le_refl _)).2 hle
      cases hfailed.symm.trans hfulldone
    rw [hneeded depth hdepth]
    omega

end WattFront
