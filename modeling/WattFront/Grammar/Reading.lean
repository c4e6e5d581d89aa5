import WattFront.Grammar.Cursor

/-! # Readings

A *reading* starts at a cursor and either is done, with a value and the cursor it has come to, or has
failed, with the failure and the cursor it stopped at. The first failure ends the whole reading;
nothing recovers from one.

* `advance`, `expect`, `accept` — one token;
* `unexpected` — the failure at the current token;
* `whileAt`, `many` — repetition as long as the current token allows it;
* `within` — one level of nesting.
-/

namespace WattFront

/-- What comes of a reading. -/
inductive Outcome (α : Type) where
  /-- The reading has a value and has come to `next`. -/
  | done (value : α) (next : Cursor)
  /-- The reading has failed, with the cursor at `stop`. -/
  | failed (failure : Failure) (stop : Cursor)

/-- A way to read part of a token list. -/
def Reading (α : Type) : Type :=
  Cursor → Outcome α

namespace Outcome

def cursor {α : Type} : Outcome α → Cursor
  | .done _ c => c
  | .failed _ c => c

def result {α : Type} : Outcome α → Except Failure α
  | .done a _ => .ok a
  | .failed f _ => .error f

/-- Goes on with the value and the cursor of a reading that is done. -/
@[inline]
def bind {α β : Type} : Outcome α → (α → Cursor → Outcome β) → Outcome β
  | .done a c, f => f a c
  | .failed failure c, _ => .failed failure c

end Outcome

namespace Reading

variable {α β : Type}

instance : Monad Reading where
  pure a := fun c => .done a c
  bind x f := fun c => (x c).bind f

theorem pure_apply (a : α) (c : Cursor) : (pure a : Reading α) c = .done a c :=
  rfl

theorem bind_apply (x : Reading α) (f : α → Reading β) (c : Cursor) :
    (x >>= f) c = (x c).bind f :=
  rfl

theorem map_apply (f : α → β) (x : Reading α) (c : Cursor) :
    (f <$> x) c = (x c).bind fun a c => .done (f a) c :=
  rfl

instance : LawfulMonad Reading :=
  LawfulMonad.mk' Reading
    (fun x => by
      funext c
      rw [map_apply]
      cases x c <;> rfl)
    (fun _ _ => rfl)
    (fun x f g => by
      funext c
      simp only [bind_apply]
      cases x c <;> rfl)

/-! ## Steps -/

def cursor : Reading Cursor :=
  fun c => .done c c

def kind : Reading TokenKind :=
  fun c => .done c.kind c

def here : Reading Position :=
  fun c => .done c.here c

def advance : Reading Token :=
  fun c => .done c.current c.next

def fail (cause : Failure.Cause) (position : Position) : Reading α :=
  fun c => .failed ⟨cause, position⟩ c

def unexpected (expected : String) : Reading α :=
  fun c => .failed (c.unexpected expected) c

/-- Consumes a token of the given kind; a message calls it by the given words. -/
def expectAs (kind : TokenKind) (expected : String) : Reading Token :=
  fun c => if c.kind = kind then .done c.current c.next else .failed (c.unexpected expected) c

def expect (kind : TokenKind) : Reading Token :=
  expectAs kind kind.describe

/-- Consumes a token of the given kind if the current one is; says whether it was. -/
def accept (kind : TokenKind) : Reading Bool :=
  fun c => if c.kind = kind then .done true c.next else .done false c

def spanFrom (start : Position) : Reading Span :=
  fun c => .done (c.spanFrom start) c

/-! ## Choice and repetition -/

def ifAt (kind : TokenKind) (inner : Reading α) : Reading (Option α) :=
  fun c => if c.kind = kind then (some <$> inner) c else .done none c

/-- Repeats a step as long as the current token is of a kind that calls for it, but not more often
than `budget` is long. -/
def repeatAt (goesOn : TokenKind → Bool) (step : α → Reading α) : List Token → α → Reading α
  | [], a => fun c => .done a c
  | _ :: budget, a => fun c =>
    if goesOn c.kind then
      (step a c).bind (repeatAt goesOn step budget)
    else .done a c

/-- Repeats a step as long as the current token is of a kind that calls for it. A step consumes a
token, so there are no more of them than tokens ahead. -/
def whileAt (goesOn : TokenKind → Bool) (step : α → Reading α) (a : α) : Reading α :=
  fun c => repeatAt goesOn step c.ahead a c

def many (goesOn : TokenKind → Bool) (inner : Reading α) : Reading (List α) :=
  List.reverse <$> whileAt goesOn (fun read => (· :: read) <$> inner) []

/-! ## Nesting -/

def tooDeep : Reading α :=
  fun c => .failed c.tooDeep c

def enter : Reading Unit :=
  fun c => match c.enter? with
    | some c => .done () c
    | none => .failed c.tooDeep c

def leave : Reading Unit :=
  fun c => .done () c.leave

/-- Runs a reading one level deeper. The level is closed again even if the reading fails. -/
def within (inner : Reading α) : Reading α :=
  fun c => match enter c with
    | .failed failure c => .failed failure c
    | .done _ c => match inner c with
      | .done a c => .done a c.leave
      | .failed failure c => .failed failure c.leave

end Reading

end WattFront
