import WattFront.Grammar.Program
import WattFront.Proofs.Grammar.Congruence

/-! # No reading moves back

A cursor stands at an *index* of the *tape*: the whole token list, with the end of input behind it. A
reading leaves the tape as it is, and its cursor never goes back to a smaller index, whether the reading
is done or has failed.

* `Cursor.current_eq`, `Cursor.peek_eq`, `Cursor.lastStop_eq` — what a cursor shows is on the tape;
* `Cursor.next_cases` — consuming a token;
* `Reading.Forward`, `Reading.Forward.congruence` — readings that do not move back, put together.
-/

namespace WattFront

structure Tape where
  tokens : List Token
  /-- The span of the end of input behind the last token. -/
  ending : Span
  file : String

/-- The token at an index; behind the last one there is only the end of input. -/
def Tape.at (s : Tape) (i : Nat) : Token :=
  s.tokens.getD i (.endOfInput s.ending)

namespace Cursor

def tape (c : Cursor) : Tape :=
  ⟨c.behind.reverse ++ c.ahead, c.ending, c.file⟩

/-- How many tokens a cursor has consumed. -/
def index (c : Cursor) : Nat :=
  c.behind.length

theorem length_tape (c : Cursor) : c.tape.tokens.length = c.index + c.ahead.length := by
  simp [tape, index]

/-- The token `count` tokens behind the current one. -/
theorem at_add (c : Cursor) (count : Nat) :
    c.tape.at (c.index + count) = c.ahead.getD count (.endOfInput c.ending) := by
  simp [Tape.at, tape, index, List.getD_eq_getElem?_getD, List.getElem?_append_right]

theorem current_eq (c : Cursor) : c.current = c.tape.at c.index := by
  rw [← Nat.add_zero c.index, at_add, current]
  cases c.ahead <;> rfl

theorem kind_eq (c : Cursor) : c.kind = (c.tape.at c.index).kind := by
  rw [kind, current_eq]

theorem peek_eq (c : Cursor) (count : Nat) : c.peek count = (c.tape.at (c.index + count)).kind := by
  rw [at_add, peek, List.getD_eq_getElem?_getD]
  cases c.ahead[count]? <;> rfl

/-- The latest consumed token is the one in front of the current one. -/
theorem lastStop_eq (c : Cursor) {i : Nat} (h : c.index = i + 1) : c.lastStop = (c.tape.at i).span.stop := by
  rcases c with ⟨behind, ahead, ending, file, depth⟩
  cases behind with
  | nil => cases h
  | cons token behind =>
    obtain rfl : behind.length = i := by simpa [index] using h
    simp [lastStop, tape, Tape.at, List.getD_eq_getElem?_getD]

/-- Past the last token stands the end of input. -/
theorem ahead_ne_nil (c : Cursor) (h : c.kind ≠ .endOfInput) : c.ahead ≠ [] := by
  rintro hahead
  rw [kind, current, hahead] at h
  exact h rfl

/-- Consuming a token moves one index on, unless it is the end of input. -/
theorem next_cases (c : Cursor) :
    c.next = c ∧ c.kind = .endOfInput
      ∨ c.next.tape = c.tape ∧ c.next.index = c.index + 1 ∧ c.kind ≠ .endOfInput := by
  rcases c with ⟨behind, ahead, ending, file, depth⟩
  cases ahead with
  | nil => exact .inl ⟨rfl, rfl⟩
  | cons token tokens =>
    by_cases hkind : token.kind = .endOfInput
    · exact .inl ⟨if_pos hkind, hkind⟩
    · have hnext : next ⟨behind, token :: tokens, ending, file, depth⟩
          = ⟨token :: behind, tokens, ending, file, depth⟩ := if_neg hkind
      refine .inr ⟨?_, ?_, hkind⟩ <;> simp [hnext, tape, index]

theorem depth_next (c : Cursor) : c.next.depth = c.depth := by
  rw [next]
  split
  · rfl
  · split <;> rfl

theorem index_le_next (c : Cursor) : c.index ≤ c.next.index := by
  rcases c.next_cases with ⟨hnext, -⟩ | ⟨-, hindex, -⟩
  · exact Nat.le_of_eq (congrArg index hnext.symm)
  · omega

end Cursor

namespace Reading

variable {α β : Type}

def closing (x : Reading α) : Reading α :=
  fun c => match x c with
    | .done a d => .done a d.leave
    | .failed failure d => .failed failure d.leave

/-- A reading one level deeper is a sequence: the level is opened, and closed in any case. -/
theorem within_eq (x : Reading α) : within x = enter >>= fun _ => closing x := by
  funext c
  rw [within, bind_apply]
  cases enter c <;> rfl

class Forward (x : Reading α) : Prop where
  le (x) (c : Cursor) : c.index ≤ (x c).cursor.index

namespace Forward

variable {x : Reading α} {f : α → Reading β}

theorem of_stays (h : ∀ c, (x c).cursor = c) : x.Forward :=
  ⟨fun c => Nat.le_of_eq (congrArg Cursor.index (h c).symm)⟩

theorem bind (hx : x.Forward) (hf : ∀ a, (f a).Forward) : (x >>= f).Forward where
  le c := by
    have hle := hx.le c
    rw [bind_apply]
    cases hrun : x c with
    | done a d =>
      rw [hrun] at hle
      exact Nat.le_trans hle ((hf a).le d)
    | failed failure d =>
      rw [hrun] at hle
      exact hle

def congruence : Congruence where
  rel x _ := x.Forward
  pure _ := .of_stays fun _ => rfl
  bind := bind
  look h := (of_stays fun _ => rfl : Reading.cursor.Forward).bind fun c => h c 0
  advance := ⟨fun c => c.index_le_next⟩
  fail _ _ := .of_stays fun _ => rfl

instance of_related [h : Related congruence x x] : x.Forward :=
  h.rel

instance (priority := low) related [h : x.Forward] : Related congruence x x :=
  ⟨h⟩

/-- A sequence whose second part is chosen by cases. -/
theorem next [hx : x.Forward] (h : ∀ a, (f a).Forward) : (x >>= f).Forward :=
  hx.bind h

instance cursor : Reading.cursor.Forward :=
  .of_stays fun _ => rfl

/-! ## Levels -/

instance enter : Reading.enter.Forward where
  le c := by
    rw [Reading.enter, Cursor.enter?]
    split
    · next hsome =>
      split at hsome <;> cases hsome
      exact Nat.le_refl _
    · exact Nat.le_refl _

instance leave : Reading.leave.Forward :=
  ⟨fun _ => Nat.le_refl _⟩

instance closing [x.Forward] : (Reading.closing x).Forward where
  le c := by
    have hle := Forward.le x c
    rw [Reading.closing]
    cases hrun : x c with
    | done a d | failed failure d =>
      rw [hrun] at hle
      exact hle

instance within [x.Forward] : (Reading.within x).Forward := by
  rw [within_eq]
  infer_instance

end Forward

end Reading

/-! ## Constructs -/

namespace Grammar

open Reading

class Inner.Forward (inner : Inner) : Prop where
  expr (power : BindingPower) : (inner.expr power).Forward
  block : inner.block.Forward

attribute [instance] Inner.Forward.expr Inner.Forward.block

instance related_of_forward (inner : Inner) [inner.Forward] : Inner.Related Forward.congruence inner inner :=
  ⟨fun _ => Forward.related, Forward.related⟩

/-- Reading expressions and blocks of any depth never moves back. -/
instance forward_nested (levels : Nat) : (nested levels).Forward := by
  induction levels with
  | zero =>
    have hfull {α : Type} : (tooDeep : Reading α).Forward := inferInstance
    exact ⟨fun _ => hfull, hfull⟩
  | succ levels ih =>
    have hblock : (block (nested levels)).Forward := by
      rw [block]
      infer_instance
    exact ⟨fun _ => Forward.within, hblock⟩

instance forward_atCursor {α : Type} {construct : Inner → Reading α}
    [h : ∀ levels, (construct (nested levels)).Forward] : (atCursor construct).Forward :=
  ⟨fun c => (h c.room).le c⟩

instance forward_items : items.Forward :=
  inferInstanceAs (many insideProgram (atCursor item)).Forward

end Grammar

end WattFront
