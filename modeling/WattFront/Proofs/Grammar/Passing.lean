import WattFront.Grammar.Listing

/-! # What a reading consumes

A cursor *passes* a list of tokens on the way to another cursor: the tokens move from the front of what
is ahead to the top of what is behind, and nothing else changes. A *form* says which token lists, in
front of which next token, stand for which values. `Reading.AcceptsAt` ties the two together: a reading
that is done has passed tokens of a form, and wherever such tokens are ahead the reading is done.

* `Cursor.Passes.trans`, `Cursor.Passes.split` — passing two lists of tokens, one after the other;
* `Reading.AcceptsAt.bind_iff` — the first reading of a sequence;
* `Reading.expect_bind_iff`, `Reading.identifier_bind_iff` — one token in front of the others.
-/

namespace WattFront

def Span.cover : List Token → Span
  | [] => default
  | token :: tokens => ⟨token.span.start, (tokens.getLastD token).span.stop⟩

namespace Span

theorem cover_cons (token : Token) (tokens : List Token) :
    cover (token :: tokens) = ⟨token.span.start, (tokens.getLastD token).span.stop⟩ := rfl

end Span

/-- The first of two lists of tokens decides what comes first, unless it is empty. -/
@[simp] theorem headD_append (tokens others : List Token) (next : Token) :
    (tokens ++ others).headD next = tokens.headD (others.headD next) := by
  cases tokens <;> rfl

namespace Cursor

/-- One cursor comes from another by consuming the given tokens. -/
structure Passes (c : Cursor) (tokens : List Token) (d : Cursor) : Prop where
  ahead : c.ahead = tokens ++ d.ahead
  behind : d.behind = tokens.reverse ++ c.behind
  inside : ∀ token ∈ tokens, token.kind ≠ .endOfInput
  ending : d.ending = c.ending
  file : d.file = c.file
  depth : d.depth = c.depth

namespace Passes

variable {c d e : Cursor} {tokens others : List Token} {token : Token}

theorem refl (c : Cursor) : c.Passes [] c :=
  ⟨rfl, rfl, by simp, rfl, rfl, rfl⟩

theorem trans (h : c.Passes tokens d) (h' : d.Passes others e) : c.Passes (tokens ++ others) e where
  ahead := by rw [h.ahead, h'.ahead, List.append_assoc]
  behind := by rw [h'.behind, h.behind, List.reverse_append, List.append_assoc]
  inside := by
    intro token member
    rcases List.mem_append.1 member with member | member
    · exact h.inside token member
    · exact h'.inside token member
  ending := h'.ending.trans h.ending
  file := h'.file.trans h.file
  depth := h'.depth.trans h.depth

theorem cons (h : c.Passes [token] d) (h' : d.Passes others e) : c.Passes (token :: others) e :=
  h.trans h'

/-- The cursor between two lists of tokens that are passed one after the other. -/
theorem split (h : c.Passes (tokens ++ others) e) :
    ∃ d, c.Passes tokens d ∧ d.Passes others e := by
  refine ⟨{ c with behind := tokens.reverse ++ c.behind, ahead := others ++ e.ahead }, ?_, ?_⟩
  · exact ⟨by rw [h.ahead, List.append_assoc], rfl,
      fun token member => h.inside token (List.mem_append_left _ member), rfl, rfl, rfl⟩
  · exact ⟨rfl, by rw [h.behind, List.reverse_append, List.append_assoc],
      fun token member => h.inside token (List.mem_append_right _ member), h.ending, h.file, h.depth⟩

theorem uncons (h : c.Passes (token :: others) e) : ∃ d, c.Passes [token] d ∧ d.Passes others e := by
  rw [← List.singleton_append] at h
  exact h.split

theorem eq_of_nil (h : c.Passes [] d) : d = c := by
  cases c; cases d
  obtain ⟨ahead, behind, -, ending, file, depth⟩ := h
  simp_all

/-- The current token is the first of the tokens that are passed, if there is one. -/
theorem current (h : c.Passes tokens d) : c.current = tokens.headD d.current := by
  rw [Cursor.current, h.ahead, Cursor.current, h.ending]
  exact headD_append tokens d.ahead _

theorem kind (h : c.Passes (token :: tokens) d) : c.kind = token.kind :=
  congrArg Token.kind h.current

theorem next_eq (h : c.Passes [token] d) : c.next = d := by
  have hkind := h.inside token (by simp)
  obtain ⟨ahead, behind, -, ending, file, depth⟩ := h
  cases c; cases d
  simp_all [Cursor.next]

/-- Consuming a token that is not the end of input. -/
theorem next (c : Cursor) (h : c.kind ≠ .endOfInput) : c.Passes [c.current] c.next := by
  rcases c with ⟨behind, ahead, ending, file, depth⟩
  cases ahead with
  | nil => exact absurd rfl h
  | cons token tokens =>
    have hkind : token.kind ≠ .endOfInput := h
    have hnext : Cursor.next ⟨behind, token :: tokens, ending, file, depth⟩
        = ⟨token :: behind, tokens, ending, file, depth⟩ := if_neg hkind
    rw [hnext]
    exact ⟨rfl, rfl, by simpa [Cursor.current] using hkind, rfl, rfl, rfl⟩

theorem room {levels : Nat} (h : c.Passes tokens d) (room : c.depth + levels ≤ maxNesting) :
    d.depth + levels ≤ maxNesting :=
  h.depth ▸ room

/-- The latest token that was passed stops where the tokens stop. -/
theorem spanFrom (h : c.Passes (token :: tokens) d) :
    d.spanFrom token.span.start = Span.cover (token :: tokens) := by
  rw [Cursor.spanFrom, Cursor.lastStop, h.behind, Span.cover_cons]
  rcases List.eq_nil_or_concat tokens with rfl | ⟨before, last, rfl⟩
  · rfl
  · simp

theorem spanFrom_here (h : c.Passes tokens d) (hne : tokens ≠ []) :
    d.spanFrom c.here = Span.cover tokens := by
  obtain ⟨first, others, rfl⟩ := List.exists_cons_of_ne_nil hne
  rw [Cursor.here, h.current]
  exact h.spanFrom

/-- A level that is open around both ends changes nothing. -/
theorem enter (h : c.Passes tokens d) :
    Passes { c with depth := c.depth + 1 } tokens { d with depth := d.depth + 1 } :=
  ⟨h.ahead, h.behind, h.inside, h.ending, h.file, congrArg (· + 1) h.depth⟩

theorem leave (h : Passes { c with depth := c.depth + 1 } tokens d) : c.Passes tokens d.leave :=
  ⟨h.ahead, h.behind, h.inside, h.ending, h.file, by rw [Cursor.leave, h.depth, Nat.add_sub_cancel]⟩

theorem length (h : c.Passes tokens d) : c.ahead.length = tokens.length + d.ahead.length := by
  rw [h.ahead, List.length_append]

end Passes

end Cursor

/-- Which token lists, in front of which next token, stand for which values. -/
def Form (α : Type) : Type :=
  List Token → Token → α → Prop

def Form.Opens {α : Type} (form : Form α) (opens : TokenKind → Prop) : Prop :=
  ∀ ⦃tokens next a⦄, form tokens next a → ∃ first others, tokens = first :: others ∧ opens first.kind

namespace Reading

variable {α β : Type} {levels : Nat} {guard : TokenKind → Prop} {c d : Cursor}

/-- At a cursor whose current token is of a guarded kind and that has room for some levels, a reading is
done exactly if it has passed tokens of the form. -/
def AcceptsAt (guard : TokenKind → Prop) (levels : Nat) (x : Reading α) (form : Form α) : Prop :=
  ∀ ⦃c : Cursor⦄, guard c.kind → c.depth + levels ≤ maxNesting → ∀ a d,
    x c = .done a d ↔ ∃ tokens, c.Passes tokens d ∧ form tokens d.current a

/-- A reading is done exactly if it has passed tokens of the form, wherever it starts with room for
some levels. -/
def Accepts (levels : Nat) (x : Reading α) (form : Form α) : Prop :=
  AcceptsAt (fun _ => True) levels x form

theorem bind_eq_done {x : Reading α} {f : α → Reading β} {b : β} :
    (x >>= f) c = .done b d ↔ ∃ a e, x c = .done a e ∧ f a e = .done b d := by
  rw [bind_apply]
  cases x c with
  | done a e => simp [Outcome.bind, and_assoc]
  | failed => simp [Outcome.bind]

theorem map_eq_done {f : α → β} {x : Reading α} {b : β} :
    (f <$> x) c = .done b d ↔ ∃ a, x c = .done a d ∧ f a = b := by
  rw [map_apply]
  cases x c with
  | done a e =>
    simp only [Outcome.bind, Outcome.done.injEq]
    constructor
    · rintro ⟨hf, hd⟩
      exact ⟨a, ⟨rfl, hd⟩, hf⟩
    · rintro ⟨_, ⟨rfl, hd⟩, hf⟩
      exact ⟨hf, hd⟩
  | failed => simp [Outcome.bind]

theorem pure_eq_done {a b : α} : (pure a : Reading α) c = .done b d ↔ a = b ∧ c = d := by
  rw [pure_apply, Outcome.done.injEq]

@[simp] theorem kind_bind (f : TokenKind → Reading α) (c : Cursor) : (kind >>= f) c = f c.kind c := rfl

@[simp] theorem here_bind (f : Position → Reading α) (c : Cursor) : (here >>= f) c = f c.here c := rfl

@[simp] theorem cursor_bind (f : Cursor → Reading α) (c : Cursor) : (cursor >>= f) c = f c c := rfl

@[simp] theorem spanFrom_bind (start : Position) (f : Span → Reading α) (c : Cursor) :
    (spanFrom start >>= f) c = f (c.spanFrom start) c := rfl

@[simp] theorem advance_bind (f : Token → Reading α) (c : Cursor) :
    (advance >>= f) c = f c.current c.next := rfl

theorem accept_bind (kind : TokenKind) (f : Bool → Reading α) (c : Cursor) :
    (accept kind >>= f) c = if c.kind = kind then f true c.next else f false c := by
  rw [bind_apply, accept]
  split <;> rfl

theorem enter_bind (f : Unit → Reading α) (room : c.depth < maxNesting) :
    (enter >>= f) c = f () { c with depth := c.depth + 1 } := by
  rw [bind_apply, enter, Cursor.enter?, if_pos room]
  rfl

theorem leave_bind (f : Unit → Reading α) (c : Cursor) : (leave >>= f) c = f () c.leave := rfl

theorem within_eq_done_iff {x : Reading α} {a : α} (room : c.depth < maxNesting) :
    within x c = .done a d ↔ ∃ e, x { c with depth := c.depth + 1 } = .done a e ∧ e.leave = d := by
  rw [within, enter, Cursor.enter?, if_pos room]
  simp only
  cases x { c with depth := c.depth + 1 } with
  | done b e =>
    simp only [Outcome.done.injEq]
    constructor
    · rintro ⟨ha, hd⟩
      exact ⟨e, ⟨ha, rfl⟩, hd⟩
    · rintro ⟨_, ⟨ha, rfl⟩, hd⟩
      exact ⟨ha, hd⟩
  | failed => simp

theorem not_unexpected_eq_done {expected : String} {a : α} :
    ¬ unexpected expected c = .done a d := by
  intro h
  cases h

theorem not_fail_eq_done {cause : Failure.Cause} {position : Position} {a : α} :
    ¬ fail cause position c = .done a d := by
  intro h
  cases h

/-- A sequence of readings is done if the first has passed tokens of its form and the second goes on
from there. -/
theorem AcceptsAt.bind_iff {x : Reading α} {form : Form α} (h : x.AcceptsAt guard levels form)
    (hguard : guard c.kind) (room : c.depth + levels ≤ maxNesting) {f : α → Reading β} {b : β} :
    (x >>= f) c = .done b d ↔
      ∃ tokens a e, c.Passes tokens e ∧ form tokens e.current a ∧ f a e = .done b d := by
  rw [bind_eq_done]
  constructor
  · rintro ⟨a, e, hx, hf⟩
    obtain ⟨tokens, hpass, hform⟩ := (h hguard room a e).1 hx
    exact ⟨tokens, a, e, hpass, hform, hf⟩
  · rintro ⟨tokens, a, e, hpass, hform, hf⟩
    exact ⟨a, e, (h hguard room a e).2 ⟨tokens, hpass, hform⟩, hf⟩

theorem Accepts.bind_iff {x : Reading α} {form : Form α} (h : x.Accepts levels form)
    (room : c.depth + levels ≤ maxNesting) {f : α → Reading β} {b : β} :
    (x >>= f) c = .done b d ↔
      ∃ tokens a e, c.Passes tokens e ∧ form tokens e.current a ∧ f a e = .done b d :=
  AcceptsAt.bind_iff h trivial room

theorem Accepts.at {x : Reading α} {form : Form α} (h : x.Accepts levels form) :
    x.AcceptsAt guard levels form :=
  fun _ _ room => h trivial room

/-- What ends a reading that needs the span of its tokens. -/
theorem spanFrom_pure_eq_done {start : Position} {f : Span → α} {a : α} :
    (spanFrom start >>= fun s => (pure (f s) : Reading α)) c = .done a d ↔
      f (c.spanFrom start) = a ∧ c = d := by
  rw [spanFrom_bind, pure_eq_done]

/-- The current token is consumed if it is not the end of input. -/
theorem advance_bind_iff (h : c.kind ≠ .endOfInput) {f : Token → Reading α} {a : α} :
    (advance >>= f) c = .done a d ↔
      ∃ token e, c.Passes [token] e ∧ token.kind = c.kind ∧ f token e = .done a d := by
  rw [advance_bind]
  constructor
  · intro hf
    exact ⟨c.current, c.next, Cursor.Passes.next c h, rfl, hf⟩
  · rintro ⟨token, e, hpass, -, hf⟩
    obtain rfl := hpass.next_eq
    rwa [show c.current = token from hpass.current]

/-- A token of a kind is consumed if it is there, under whatever name a message has for it. -/
theorem expectAs_bind_iff (kind : TokenKind) (hkind : kind != .endOfInput) {expected : String}
    {f : Token → Reading α} {a : α} :
    (expectAs kind expected >>= f) c = .done a d ↔
      ∃ token e, c.Passes [token] e ∧ token.kind = kind ∧ f token e = .done a d := by
  rw [bind_apply, expectAs]
  split
  · next hc =>
    have hend : c.kind ≠ .endOfInput := hc ▸ bne_iff_ne.1 hkind
    have hadvance := advance_bind_iff hend (f := f) (a := a) (d := d)
    rwa [hc] at hadvance
  · next hc =>
    constructor
    · exact fun h => absurd h not_unexpected_eq_done
    · rintro ⟨token, e, hpass, htoken, -⟩
      exact absurd (hpass.kind.trans htoken) hc

theorem expect_bind_iff (kind : TokenKind) (hkind : kind != .endOfInput)
    {f : Token → Reading α} {a : α} :
    (expect kind >>= f) c = .done a d ↔
      ∃ token e, c.Passes [token] e ∧ token.kind = kind ∧ f token e = .done a d :=
  expectAs_bind_iff kind hkind

theorem identifier_bind_iff {f : Ident → Reading α} {a : α} :
    (Grammar.identifier >>= f) c = .done a d ↔
      ∃ token e, c.Passes [token] e ∧ token.kind = .identifier
        ∧ f ⟨token.value, token.span⟩ e = .done a d := by
  rw [Grammar.identifier, bind_assoc, expect_bind_iff .identifier rfl]
  simp only [pure_bind]

end Reading

end WattFront
