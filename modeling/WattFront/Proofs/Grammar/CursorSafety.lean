import Mathlib.Logic.Relation
import WattFront.Proofs.Grammar.Lookahead

/-! # A cursor never leaves its token list

Whatever is done to a cursor is made of three moves: to the next token, into a level of nesting, and out of one
(`Cursor.Action.moves`). A token list that does not state its end of input gets one behind its last token
(`terminated`), and the moves keep a cursor inside this list: not behind the first `endOfInput` token, wherever
that one stands, and not too deep (`Cursor.Move.safe`). So there is always a current token, and a latest one
unless nothing has been consumed.

* `Cursor.Move`, `Cursor.Moves` — one move, and any number of them;
* `Reading.moving` — the congruence of readings that do nothing but move;
* `Cursor.Action`, `Cursor.Action.run` — what a caller may do to a cursor, in any order and also after failures;
* `run_safe` — the result.
-/

namespace WattFront

open Grammar

/-! ## Moves -/

namespace Cursor

inductive Move : Cursor → Cursor → Prop
  | next (c : Cursor) : Move c c.next
  | enter {c d : Cursor} (h : c.enter? = some d) : Move c d
  | leave (c : Cursor) : Move c c.leave

abbrev Moves : Cursor → Cursor → Prop :=
  Relation.ReflTransGen Move

variable {c d : Cursor}

/-- No move changes the tape or goes back. -/
theorem Move.tape_and_index (h : c.Move d) : d.tape = c.tape ∧ c.index ≤ d.index := by
  cases h with
  | next =>
    refine ⟨?_, c.index_le_next⟩
    rcases c.next_cases with ⟨hnext, -⟩ | ⟨htape, -, -⟩
    · rw [hnext]
    · exact htape
  | enter hsome =>
    rw [enter?] at hsome
    split at hsome <;> cases hsome
    exact ⟨rfl, Nat.le_refl _⟩
  | leave => exact ⟨rfl, Nat.le_refl _⟩

theorem Moves.tape_and_index (h : c.Moves d) : d.tape = c.tape ∧ c.index ≤ d.index := by
  induction h with
  | refl => exact ⟨rfl, Nat.le_refl _⟩
  | tail _ hmove ih =>
    obtain ⟨htape, hle⟩ := hmove.tape_and_index
    exact ⟨htape.trans ih.1, Nat.le_trans ih.2 hle⟩

end Cursor

namespace Reading

variable {α : Type} {x : Reading α}

/-- A reading does nothing to its cursor but move it. -/
def Moving (x : Reading α) : Prop :=
  ∀ c : Cursor, c.Moves (x c).cursor

namespace Moving

theorem of_stays (h : ∀ c, (x c).cursor = c) : x.Moving := by
  intro c
  rw [h]

theorem bind {β : Type} {f : α → Reading β} (hx : x.Moving) (hf : ∀ a, (f a).Moving) : (x >>= f).Moving := by
  intro c
  have hc := hx c
  rw [bind_apply]
  generalize x c = o at hc
  cases o with
  | done a d => exact hc.trans (hf a d)
  | failed f d => exact hc

theorem advance : Reading.advance.Moving :=
  fun c => .single (.next c)

theorem enter : Reading.enter.Moving := by
  intro c
  rw [Reading.enter]
  cases h : c.enter? with
  | some d => exact .single (.enter h)
  | none => exact .refl

theorem leave : Reading.leave.Moving :=
  fun c => .single (.leave c)

theorem closing (hx : x.Moving) : (Reading.closing x).Moving := by
  intro c
  have hc := hx c
  rw [Reading.closing]
  generalize x c = o at hc
  cases o with
  | done a d => exact hc.tail (.leave d)
  | failed f d => exact hc.tail (.leave d)

theorem within (hx : x.Moving) : (Reading.within x).Moving := by
  rw [within_eq]
  exact enter.bind fun _ => hx.closing

end Moving

def moving : Congruence where
  rel x _ := x.Moving
  pure _ := .of_stays fun _ => rfl
  bind hx hf := hx.bind hf
  look h := fun c => h c c.depth c
  advance := .advance
  fail _ _ := .of_stays fun _ => rfl

theorem Moving.of_related [h : Related moving x x] : x.Moving :=
  h.rel

end Reading

namespace Grammar

open Reading

theorem moving_encloses : moving.Encloses moving where
  within := Moving.within
  around hx hf := Moving.enter.bind fun _ => Moving.bind hx fun a => Moving.leave.bind fun _ => hf a

instance moving_nested (levels : Nat) : Inner.Related moving (nested levels) (nested levels) := by
  induction levels with
  | zero => exact ⟨fun _ => Related.tooDeep, Related.tooDeep⟩
  | succ levels ih => exact related_level moving_encloses (nested levels) (nested levels)

theorem moving_ties : moving.Ties :=
  fun _ _ h c => h (nested c.room) (nested c.room) c

end Grammar

/-! ## Actions -/

/-- Fails with a given failure unless the current token is of a kind, and consumes it if it is. -/
def Reading.expectOr (kind : TokenKind) (failure : Failure) : Reading Token := do
  if (← Reading.kind) = kind then advance else fail failure.cause failure.position

/-- What may be done to a cursor. Looking at it, in whatever way, is one of the actions, and so is everything that
the grammar is made of. -/
inductive Cursor.Action : Type 1 where
  | look {α : Type} (view : Cursor → α)
  | advance
  | expect (kind : TokenKind)
  /-- Expects a token of a kind, with a failure of the caller. -/
  | expectOr (kind : TokenKind) (failure : Failure)
  | identifier
  | enter
  | leave
  | construct {α : Type} (x : Reading α) (h : Construct x)
  /-- A comma list, whose items are read by an action. -/
  | commaList (close : TokenKind) (item : Action)

namespace Cursor.Action

def reading : Action → Reading Unit
  | look view => (fun _ => ()) <$> (view <$> Reading.cursor)
  | advance => (fun _ => ()) <$> Reading.advance
  | expect kind => (fun _ => ()) <$> Reading.expect kind
  | expectOr kind failure => (fun _ => ()) <$> Reading.expectOr kind failure
  | identifier => (fun _ => ()) <$> Grammar.identifier
  | enter => Reading.enter
  | leave => Reading.leave
  | construct x _ => (fun _ => ()) <$> x
  | commaList close item => (fun _ => ()) <$> Grammar.commaList close item.reading

/-- The cursor behind some actions, done one after the other. A failure does not end them: the next one starts where
the cursor has stopped. -/
def run (actions : List Action) (c : Cursor) : Cursor :=
  actions.foldl (fun c action => (action.reading c).cursor) c

open Reading in
/-- An action does nothing but move. -/
theorem moves (action : Action) : action.reading.Moving := by
  suffices Related moving action.reading action.reading from Moving.of_related
  induction action with
  | look view =>
    have hview : Related moving (view <$> Reading.cursor) (view <$> Reading.cursor) :=
      ⟨.of_stays fun _ => rfl⟩
    exact .map
  | advance => exact .map
  | expect kind => exact .map
  | expectOr kind failure =>
    have hexpect : Related moving (Reading.expectOr kind failure) (Reading.expectOr kind failure) := .bind
    exact .map
  | identifier => exact .map
  | enter => exact ⟨Moving.enter⟩
  | leave => exact ⟨Moving.leave⟩
  | construct x h =>
    have hx : Related moving x x := ⟨h.related moving_ties⟩
    exact .map
  | commaList close item ih =>
    have hlist : Related moving (Grammar.commaList close item.reading) (Grammar.commaList close item.reading) :=
      inferInstance
    exact .map

theorem run_append (earlier later : List Action) (c : Cursor) :
    run (earlier ++ later) c = run later (run earlier c) :=
  List.foldl_append

theorem run_moves (actions : List Action) (c : Cursor) : c.Moves (run actions c) := by
  induction actions generalizing c with
  | nil => exact .refl
  | cons action actions ih => exact (action.moves c).trans (ih _)

end Cursor.Action

/-! ## Safety -/

/-- The token list with an end of input: it is put behind the last token unless that one is it. -/
def terminated (tokens : List Token) (file : String) : List Token :=
  if tokens.getLast?.map Token.kind = some .endOfInput then tokens
  else tokens ++ [.endOfInput (Cursor.start tokens file).ending]

def endIndex (tokens : List Token) (file : String) : Nat :=
  (terminated tokens file).findIdx fun token => token.kind = .endOfInput

section

variable (tokens : List Token) (file : String)

theorem exists_end : ∃ token ∈ terminated tokens file, token.kind = .endOfInput := by
  rw [terminated]
  split
  · next h =>
    obtain ⟨token, hlast, hkind⟩ := Option.map_eq_some_iff.1 h
    exact ⟨token, List.mem_of_getLast? hlast, hkind⟩
  · exact ⟨_, List.mem_append_right _ (List.mem_singleton.2 rfl), rfl⟩

theorem endIndex_lt : endIndex tokens file < (terminated tokens file).length := by
  obtain ⟨token, hmem, hkind⟩ := exists_end tokens file
  exact List.findIdx_lt_length_of_exists ⟨token, hmem, decide_eq_true hkind⟩

variable {tokens file}

/-- The list with an end of input is what stands on the tape. -/
theorem terminated_getElem? {i : Nat} (h : i < (terminated tokens file).length) :
    (terminated tokens file)[i]? = some ((Cursor.start tokens file).tape.at i) := by
  have htape : (Cursor.start tokens file).tape.at i
      = tokens.getD i (.endOfInput (Cursor.start tokens file).ending) := rfl
  rw [htape, List.getD_eq_getElem?_getD]
  rw [terminated] at h ⊢
  split at h
  · next hlast => rw [if_pos hlast, List.getElem?_eq_getElem h, Option.getD_some]
  · next hlast =>
    rw [if_neg hlast]
    rw [List.length_append, List.length_singleton] at h
    by_cases hi : i < tokens.length
    · rw [List.getElem?_append_left hi, List.getElem?_eq_getElem hi, Option.getD_some]
    · obtain rfl : i = tokens.length := by omega
      simp

theorem kind_at_endIndex : ((Cursor.start tokens file).tape.at (endIndex tokens file)).kind = .endOfInput := by
  have hlt := endIndex_lt tokens file
  have hat := terminated_getElem? hlt
  rw [List.getElem?_eq_getElem hlt, Option.some.injEq] at hat
  rw [← hat]
  have hfound : decide ((terminated tokens file)[endIndex tokens file].kind = .endOfInput) = true :=
    @List.findIdx_getElem Token (fun token => decide (token.kind = .endOfInput)) _ hlt
  exact of_decide_eq_true hfound

end

/-- A cursor that has come out of the start of a token list, and has not left it. -/
structure Cursor.Safe (tokens : List Token) (file : String) (c : Cursor) : Prop where
  tape : c.tape = (start tokens file).tape
  index : c.index ≤ endIndex tokens file
  depth : c.depth ≤ maxNesting

namespace Cursor

variable {tokens : List Token} {file : String} {c d : Cursor}

theorem Safe.start : (start tokens file).Safe tokens file :=
  ⟨rfl, Nat.zero_le _, Nat.zero_le _⟩

/-- A move leads from a safe cursor to a safe cursor. -/
theorem Move.safe (h : c.Move d) (hc : c.Safe tokens file) : d.Safe tokens file := by
  have htape := h.tape_and_index.1.trans hc.tape
  cases h with
  | next =>
    rcases c.next_cases with ⟨hnext, -⟩ | ⟨-, hindex, hkind⟩
    · rwa [hnext]
    · refine ⟨htape, ?_, c.depth_next ▸ hc.depth⟩
      have hne : c.index ≠ endIndex tokens file := by
        intro heq
        rw [kind_eq, hc.tape, heq] at hkind
        exact hkind kind_at_endIndex
      have hle := hc.index
      omega
  | enter hsome =>
    rw [enter?] at hsome
    split at hsome
    · next hroom =>
      cases hsome
      exact ⟨htape, hc.index, hroom⟩
    · cases hsome
  | leave => exact ⟨htape, hc.index, Nat.le_trans (Nat.sub_le _ _) hc.depth⟩

theorem Moves.safe (h : c.Moves d) (hc : c.Safe tokens file) : d.Safe tokens file := by
  induction h with
  | refl => exact hc
  | tail _ hmove ih => exact hmove.safe ih

namespace Safe

variable (hc : c.Safe tokens file)

include hc

/-- The current token is one of the list. -/
theorem current : (terminated tokens file)[c.index]? = some c.current := by
  rw [terminated_getElem? (Nat.lt_of_le_of_lt hc.index (endIndex_lt tokens file)), current_eq, hc.tape]

/-- The latest token is one of the list, if any has been consumed. -/
theorem latest {i : Nat} (h : c.index = i + 1) :
    ∃ token, (terminated tokens file)[i]? = some token ∧ c.lastStop = token.span.stop := by
  have hlt : i < (terminated tokens file).length := by
    have hle := hc.index
    have hend := endIndex_lt tokens file
    omega
  exact ⟨_, terminated_getElem? hlt, by rw [c.lastStop_eq h, hc.tape]⟩

end Safe

end Cursor

/-- Actions are safe, in any order and also after failures, and for any token list: one without an end of input,
or with an end of input in the middle, or an empty one. They do nothing but move the cursor, and wherever it comes
on its way, the tokens and the file are what they were, it has not moved back, it has not gone past the first end
of input, its current and its latest token are in the list, and no more levels are open than may be. -/
theorem run_safe (tokens : List Token) (file : String) (earlier later : List Cursor.Action) :
    let c := Cursor.Action.run earlier (.start tokens file)
    let d := Cursor.Action.run (earlier ++ later) (.start tokens file)
    c.Moves d ∧ ∀ ⦃e : Cursor⦄, c.Moves e →
      e.tape = (Cursor.start tokens file).tape
        ∧ c.index ≤ e.index
        ∧ e.index ≤ endIndex tokens file
        ∧ (terminated tokens file)[e.index]? = some e.current
        ∧ (∀ i, e.index = i + 1 →
            ∃ token, (terminated tokens file)[i]? = some token ∧ e.lastStop = token.span.stop)
        ∧ e.depth ≤ maxNesting := by
  intro c d
  have hc : c.Safe tokens file := (Cursor.Action.run_moves earlier _).safe .start
  refine ⟨?_, fun e hmoves => ?_⟩
  · have hd : d = Cursor.Action.run later c := Cursor.Action.run_append earlier later _
    exact hd ▸ Cursor.Action.run_moves later c
  · have he := hmoves.safe hc
    exact ⟨he.tape, hmoves.tape_and_index.2, he.index, he.current, fun i hi => he.latest hi, he.depth⟩

/-- A list with an end of input in the middle: an expression fails there, and nothing gets past it. -/
theorem run_safe_of_list :
    let tokens : List Token := [⟨.openBracket, "[", default⟩, ⟨.endOfInput, "EOF", default⟩, ⟨.number, "1", default⟩]
    let actions : List Cursor.Action := [.construct _ (.production .list), .advance, .leave, .enter]
    let d := Cursor.Action.run ([] ++ actions) (.start tokens "")
    (Cursor.start tokens "").Moves d ∧ d.index = 1 ∧ endIndex tokens "" = 1 ∧ d.depth = 1
      ∧ (terminated tokens "")[d.index]? = some d.current := by
  intro tokens actions d
  obtain ⟨hmoves, hsafe⟩ := run_safe tokens "" [] actions
  obtain ⟨-, -, -, hcurrent, -, -⟩ := hsafe hmoves
  exact ⟨hmoves, rfl, by decide, rfl, hcurrent⟩

end WattFront
