import WattFront.Proofs.Grammar.Forward
import WattFront.Proofs.Tree.Correspondence

/-! # Two token lists read side by side

Two tapes are *alike* up to an index if the tokens there differ in nothing that a reading looks at: their
kinds are the same, a number is in range on both of them or on neither, and a name is the word `impl` on
both or on neither. Two runs of a reading on such tapes stay in step as long as they look no further, and
what they come to is built in the same way from the tokens at the same indices. The right tape may have some
tokens more at its front: then its indices are larger by their number.

* `TapePair.InStep` — the two cursors of such runs;
* `TapePair.Follows` — two readings that stay in step, one lemma for each way to put readings together.
-/

namespace WattFront

/-- Two tokens that a reading cannot tell apart. -/
structure Token.Alike (t u : Token) : Prop where
  kind : u.kind = t.kind
  number : t.kind = .number →
    (Numeral.value? u.value.toList).isSome = (Numeral.value? t.value.toList).isSome
  word : t.kind = .identifier → (u.value = "impl" ↔ t.value = "impl")

/-- Two failures are of the same kind, and each speaks of its own one of two related tokens. -/
inductive Failure.Matches (T : Token → Token → Prop) : Failure → Failure → Prop
  | unexpectedToken {t u} (expected : String) (h : T t u) :
    Failure.Matches T ⟨.unexpectedToken expected t.found, t.span.start⟩
      ⟨.unexpectedToken expected u.found, u.span.start⟩
  | unexpectedEnd {t u} (expected : String) (h : T t u) (hkind : t.kind = .endOfInput) :
    Failure.Matches T ⟨.unexpectedEnd expected, t.span.start⟩ ⟨.unexpectedEnd expected, u.span.start⟩
  | nestingTooDeep {t u} (limit : Nat) (h : T t u) :
    Failure.Matches T ⟨.nestingTooDeep limit, t.span.start⟩ ⟨.nestingTooDeep limit, u.span.start⟩
  | numberOutOfRange {t u} (h : T t u) (hkind : t.kind = .number)
    (hvalue : Numeral.value? t.value.toList = none) :
    Failure.Matches T ⟨.numberOutOfRange t.value, t.span.start⟩ ⟨.numberOutOfRange u.value, u.span.start⟩

/-- Failures that speak of the same token are the same. -/
theorem Failure.Matches.eq {T : Token → Token → Prop} (hT : ∀ {t u}, T t u → t = u) {f f' : Failure}
    (h : f.Matches T f') : f = f' := by
  cases h with
  | unexpectedToken _ h | unexpectedEnd _ h | nestingTooDeep _ h | numberOutOfRange h => rw [hT h]

/-- Two tapes that are alike up to an index. -/
structure TapePair where
  left : Tape
  right : Tape
  limit : Nat
  /-- How many tokens the right tape has in front of those that correspond to the left one. -/
  offset : Nat := 0
  alike {i : Nat} : i ≤ limit → (left.at i).Alike (right.at (i + offset))

namespace Reading

variable {α : Type} {goesOn : TokenKind → Bool} {step : α → Reading α} {c : Cursor}

/-- A loop whose token calls for no further round. -/
theorem repeatAt_of_stop (budget : List Token) (a : α) (h : goesOn c.kind = false) :
    repeatAt goesOn step budget a c = .done a c := by
  cases budget with
  | nil => rfl
  | cons => simp [repeatAt, h]

theorem repeatAt_of_go {token : Token} (budget : List Token) (a : α) (h : goesOn c.kind = true) :
    repeatAt goesOn step (token :: budget) a c = (step a c).bind (repeatAt goesOn step budget) :=
  if_pos h

end Reading

namespace TapePair

variable {w : TapePair} {c d : Cursor}

def Related (w : TapePair) (t u : Token) : Prop :=
  ∃ i ≤ w.limit, t = w.left.at i ∧ u = w.right.at (i + w.offset)

def Starts (w : TapePair) (p p' : Position) : Prop :=
  ∃ t u, w.Related t u ∧ p = t.span.start ∧ p' = u.span.start

/-- Two cursors stand at the same index of the two tapes, with the same number of levels open. -/
structure InStep (w : TapePair) (c d : Cursor) : Prop where
  left : c.tape = w.left
  right : d.tape = w.right
  index : d.index = c.index + w.offset
  depth : d.depth = c.depth
  inside : c.index ≤ w.limit

/-- A cursor on the left tape has gone past the limit. It cannot do so if the limit is at the end of
input. -/
structure Beyond (w : TapePair) (c : Cursor) : Prop where
  past : w.limit < c.index
  further : (w.left.at w.limit).kind ≠ .endOfInput

theorem Related.alike {t u : Token} (h : w.Related t u) : t.Alike u := by
  obtain ⟨i, hi, rfl, rfl⟩ := h
  exact w.alike hi

theorem Related.starts {t u : Token} (h : w.Related t u) : w.Starts t.span.start u.span.start :=
  ⟨t, u, h, rfl, rfl⟩

namespace InStep

theorem current (h : w.InStep c d) : w.Related c.current d.current := by
  refine ⟨c.index, h.inside, ?_, ?_⟩
  · rw [c.current_eq, h.left]
  · rw [d.current_eq, h.right, h.index]

theorem kind (h : w.InStep c d) : d.kind = c.kind :=
  h.current.alike.kind

theorem room (h : w.InStep c d) : d.room = c.room := by
  rw [Cursor.room, Cursor.room, h.depth]

/-- Tokens further on that are not past the limit are of the same kind too. -/
theorem peek (h : w.InStep c d) {count : Nat} (hlimit : c.index + count ≤ w.limit) :
    d.peek count = c.peek count := by
  rw [c.peek_eq, d.peek_eq, h.left, h.right, h.index, Nat.add_right_comm]
  exact (w.alike hlimit).kind

/-- Consuming a token that is not the end of input keeps two cursors in step, or goes past the limit. -/
theorem next_of_ne (h : w.InStep c d) (hkind : c.kind ≠ .endOfInput) :
    w.InStep c.next d.next ∧ c.next.index = c.index + 1 ∨ w.Beyond c.next := by
  obtain ⟨-, hend⟩ | ⟨htape, hindex, -⟩ := c.next_cases
  · exact absurd hend hkind
  obtain ⟨-, hend⟩ | ⟨htape', hindex', -⟩ := d.next_cases
  · exact absurd (h.kind ▸ hend) hkind
  by_cases hlimit : c.index < w.limit
  · refine .inl ⟨⟨?_, ?_, ?_, ?_, ?_⟩, hindex⟩
    · rw [htape, h.left]
    · rw [htape', h.right]
    · rw [hindex', hindex, h.index, Nat.add_right_comm]
    · rw [c.depth_next, d.depth_next, h.depth]
    · omega
  · have hinside := h.inside
    obtain hat : c.index = w.limit := by omega
    rw [c.kind_eq, h.left, hat] at hkind
    exact .inr ⟨by omega, hkind⟩

theorem next (h : w.InStep c d) : w.InStep c.next d.next ∨ w.Beyond c.next := by
  by_cases hkind : c.kind = .endOfInput
  · obtain ⟨hstay, -⟩ | ⟨-, -, hgo⟩ := c.next_cases
    · obtain ⟨hstay', -⟩ | ⟨-, -, hgo⟩ := d.next_cases
      · rw [hstay, hstay']
        exact .inl h
      · exact absurd (h.kind.trans hkind) hgo
    · exact absurd hkind hgo
  · exact (h.next_of_ne hkind).imp_left And.left

theorem withDepth (h : w.InStep c d) (n : Nat) :
    w.InStep { c with depth := n } { d with depth := n } :=
  ⟨h.left, h.right, h.index, rfl, h.inside⟩

theorem leave (h : w.InStep c d) : w.InStep c.leave d.leave := by
  rw [Cursor.leave, Cursor.leave, h.depth]
  exact h.withDepth _

/-- The failure of the current tokens to be what was expected. -/
theorem unexpected (h : w.InStep c d) (expected : String) :
    (c.unexpected expected).Matches w.Related (d.unexpected expected) := by
  rw [Cursor.unexpected, Cursor.unexpected, h.kind]
  split
  · next hkind => exact .unexpectedEnd expected h.current hkind
  · exact .unexpectedToken expected h.current

theorem tooDeep (h : w.InStep c d) : c.tooDeep.Matches w.Related d.tooDeep :=
  .nestingTooDeep maxNesting h.current

end InStep

/-- What comes of two runs that are in step: both are done, with related values and at least `least`
tokens consumed, or both have failed, with related failures; unless the run on the left has gone past the
limit. -/
inductive Meets {α : Type} (w : TapePair) (least : Nat) (R : α → α → Prop) : Outcome α → Outcome α → Prop
  | done {a b c d} (hab : R a b) (hstep : w.InStep c d) (hleast : least ≤ c.index) :
    Meets w least R (.done a c) (.done b d)
  | failed {f g c d} (hfg : f.Matches w.Related g) (hstep : w.InStep c d) :
    Meets w least R (.failed f c) (.failed g d)
  | beyond {o o'} (h : w.Beyond o.cursor) : Meets w least R o o'

/-- Two readings stay in step from any index that is not below `least`, and if they are done they have
consumed at least `gain` tokens. -/
def Follows {α : Type} (w : TapePair) (least gain : Nat) (x y : Reading α) (R : α → α → Prop) : Prop :=
  ∀ ⦃c d⦄, w.InStep c d → least ≤ c.index → w.Meets (c.index + gain) R (x c) (y d)

theorem Beyond.forward {α : Type} {x : Reading α} [x.Forward] (h : w.Beyond c) :
    w.Beyond (x c).cursor :=
  ⟨Nat.lt_of_lt_of_le h.past (Reading.Forward.le x c), h.further⟩

section

variable {α β : Type} {least least' gain gain' : Nat} {R : α → α → Prop} {R' : β → β → Prop}
  {o o' : Outcome α} {x y : Reading α}

theorem Meets.mono {n n' : Nat} (h : w.Meets n R o o') (hle : n' ≤ n) : w.Meets n' R o o' := by
  cases h with
  | done hab hstep hleast => exact .done hab hstep (Nat.le_trans hle hleast)
  | failed hfg hstep => exact .failed hfg hstep
  | beyond h => exact .beyond h

theorem Meets.imp {R' : α → α → Prop} {n : Nat} (h : w.Meets n R o o') (hR : ∀ a b, R a b → R' a b) :
    w.Meets n R' o o' := by
  cases h with
  | done hab hstep hleast => exact .done (hR _ _ hab) hstep hleast
  | failed hfg hstep => exact .failed hfg hstep
  | beyond h => exact .beyond h

theorem Meets.map {f f' : α → β} {n : Nat} (h : w.Meets n R o o') (hf : ∀ a b, R a b → R' (f a) (f' b)) :
    w.Meets n R' (o.bind fun a c => .done (f a) c) (o'.bind fun a c => .done (f' a) c) := by
  cases h with
  | done hab hstep hleast => exact .done (hf _ _ hab) hstep hleast
  | failed hfg hstep => exact .failed hfg hstep
  | beyond h => cases o <;> exact .beyond h

/-- The second parts of two sequences go on from where the first ones have come to. -/
theorem Meets.bind {f k : α → Reading β} [∀ a, (f a).Forward] {n n' : Nat} (h : w.Meets n R o o')
    (hf : ∀ a b c d, R a b → w.InStep c d → n ≤ c.index → w.Meets n' R' (f a c) (k b d)) :
    w.Meets n' R' (o.bind f) (o'.bind k) := by
  cases h with
  | done hab hstep hleast => exact hf _ _ _ _ hab hstep hleast
  | failed hfg hstep => exact .failed hfg hstep
  | beyond h =>
    cases o with
    | done a e =>
      exact .beyond (Beyond.forward (x := f a) h)
    | failed failure e => exact .beyond h

namespace Follows

theorem mono (h : w.Follows least gain x y R) (hleast : least ≤ least') (hgain : gain' ≤ gain) :
    w.Follows least' gain' x y R :=
  fun _ _ hstep hle => (h hstep (Nat.le_trans hleast hle)).mono (Nat.add_le_add_left hgain _)

theorem imp {R' : α → α → Prop} (h : w.Follows least gain x y R) (hR : ∀ a b, R a b → R' a b) :
    w.Follows least gain x y R' :=
  fun _ _ hstep hle => (h hstep hle).imp hR

/-- Readings that consume a token from anywhere stay in step from anywhere. -/
theorem goes (h : w.Follows 0 1 x y R) : w.Follows least 0 x y R :=
  h.mono (Nat.zero_le _) (Nat.zero_le _)

/-! ## Steps and sequences -/

theorem pure {a b : α} (h : R a b) : w.Follows least 0 (Pure.pure a) (Pure.pure b) R :=
  fun _ _ hstep _ => .done h hstep (Nat.le_refl _)

theorem bind {f k : α → Reading β} [∀ a, (f a).Forward] (hx : w.Follows least gain x y R)
    (hf : ∀ a b, R a b → w.Follows (least + gain) gain' (f a) (k b) R') :
    w.Follows least (gain' + gain) (x >>= f) (y >>= k) R' := by
  intro c d hstep hle
  refine (hx hstep hle).bind fun a b e e' hab hstep' hindex => ?_
  refine (hf a b hab hstep' (by omega)).mono ?_
  omega

/-- A sequence whose second part is chosen by cases. -/
theorem next {f k : α → Reading β} (hforward : ∀ a, (f a).Forward) (hx : w.Follows least gain x y R)
    (hf : ∀ a b, R a b → w.Follows (least + gain) gain' (f a) (k b) R') :
    w.Follows least (gain' + gain) (x >>= f) (y >>= k) R' :=
  hx.bind hf

theorem map {f f' : α → β} (hx : w.Follows least gain x y R) (hf : ∀ a b, R a b → R' (f a) (f' b)) :
    w.Follows least gain (f <$> x) (f' <$> y) R' :=
  fun _ _ hstep hle => (hx hstep hle).map hf

theorem ite {p : Prop} [Decidable p] {x' y' : Reading α} (hx : w.Follows least gain x y R)
    (hx' : w.Follows least gain x' y' R) :
    w.Follows least gain (if p then x else x') (if p then y else y') R := by
  split
  · exact hx
  · exact hx'

/-- The two runs see tokens of the same kind. -/
theorem kind_bind {f k : TokenKind → Reading α} (h : ∀ kind, w.Follows least gain (f kind) (k kind) R) :
    w.Follows least gain (Reading.kind >>= f) (Reading.kind >>= k) R := by
  intro c d hstep hle
  show w.Meets _ R (f c.kind c) (k d.kind d)
  rw [hstep.kind]
  exact h c.kind hstep hle

theorem here : w.Follows least 0 Reading.here Reading.here w.Starts :=
  fun _ _ hstep _ => .done hstep.current.starts hstep (Nat.le_refl _)

/-- What was consumed last is related, if anything was consumed. -/
theorem spanFrom {p p' : Position} (h : w.Starts p p') :
    w.Follows 1 0 (Reading.spanFrom p) (Reading.spanFrom p') (Span.Matches w.Related) := by
  intro c d hstep hle
  obtain ⟨i, hi⟩ : ∃ i, c.index = i + 1 := ⟨c.index - 1, by omega⟩
  have hinside := hstep.inside
  have hi' : d.index = i + w.offset + 1 := by rw [hstep.index, hi, Nat.add_right_comm]
  refine .done ⟨h, w.left.at i, w.right.at (i + w.offset), ⟨i, by omega, rfl, rfl⟩, ?_, ?_⟩ hstep (Nat.le_refl _)
  · rw [Cursor.spanFrom, c.lastStop_eq hi, hstep.left]
  · rw [Cursor.spanFrom, d.lastStop_eq hi', hstep.right]

theorem advance : w.Follows least 0 Reading.advance Reading.advance w.Related := by
  intro c d hstep _
  rcases hstep.next with hnext | hbeyond
  · exact .done hstep.current hnext c.index_le_next
  · exact .beyond hbeyond

/-- One token of a kind is consumed on either side. -/
theorem expectAs (kind : TokenKind) (hkind : kind ≠ .endOfInput) (expected : String) :
    w.Follows least 1 (Reading.expectAs kind expected) (Reading.expectAs kind expected)
      fun t u => w.Related t u ∧ t.kind = kind := by
  intro c d hstep _
  rw [Reading.expectAs, Reading.expectAs, hstep.kind]
  split
  · next hc =>
    rcases hstep.next_of_ne (hc ▸ hkind) with ⟨hnext, hindex⟩ | hbeyond
    · exact .done ⟨hstep.current, hc⟩ hnext (Nat.le_of_eq hindex.symm)
    · exact .beyond hbeyond
  · exact .failed (hstep.unexpected expected) hstep

theorem expect (kind : TokenKind) (hkind : kind ≠ .endOfInput) :
    w.Follows least 1 (Reading.expect kind) (Reading.expect kind)
      fun t u => w.Related t u ∧ t.kind = kind :=
  expectAs kind hkind _

/-- The end of input may be expected too, but it is not consumed. -/
theorem expect_any (kind : TokenKind) :
    w.Follows least 0 (Reading.expect kind) (Reading.expect kind)
      fun t u => w.Related t u ∧ t.kind = kind := by
  intro c d hstep _
  rw [Reading.expect, Reading.expectAs, Reading.expectAs, hstep.kind]
  split
  · next hc =>
    rcases hstep.next with hnext | hbeyond
    · exact .done ⟨hstep.current, hc⟩ hnext c.index_le_next
    · exact .beyond hbeyond
  · exact .failed (hstep.unexpected _) hstep

theorem accept (kind : TokenKind) :
    w.Follows least 0 (Reading.accept kind) (Reading.accept kind) Eq := by
  intro c d hstep _
  rw [Reading.accept, Reading.accept, hstep.kind]
  split
  · rcases hstep.next with hnext | hbeyond
    · exact .done rfl hnext c.index_le_next
    · exact .beyond hbeyond
  · exact .done rfl hstep (Nat.le_refl _)

/-! ## Failures -/

theorem fail {cause cause' : Failure.Cause} {p p' : Position}
    (h : Failure.Matches w.Related ⟨cause, p⟩ ⟨cause', p'⟩) :
    w.Follows least gain (Reading.fail cause p) (Reading.fail cause' p') R :=
  fun _ _ hstep _ => .failed h hstep

theorem unexpected (expected : String) :
    w.Follows least gain (Reading.unexpected expected) (Reading.unexpected expected) R :=
  fun _ _ hstep _ => .failed (hstep.unexpected expected) hstep

theorem tooDeep : w.Follows least gain Reading.tooDeep Reading.tooDeep R :=
  fun _ _ hstep _ => .failed hstep.tooDeep hstep

/-! ## Choice and repetition -/

theorem ifAt {kind : TokenKind} (hx : w.Follows least gain x y R) :
    w.Follows least 0 (Reading.ifAt kind x) (Reading.ifAt kind y) (Option.Rel R) := by
  intro c d hstep hle
  rw [Reading.ifAt, Reading.ifAt, hstep.kind]
  split
  · have hsome : w.Follows least gain (some <$> x) (some <$> y) (Option.Rel R) :=
      hx.map fun _ _ => .some
    exact (hsome hstep hle).mono (Nat.le_add_right _ _)
  · exact .done .none hstep (Nat.le_refl _)

variable {goesOn : TokenKind → Bool} {step step' : α → Reading α} [∀ a, (step a).Forward]

/-- A cursor that has consumed a token has fewer tokens ahead. -/
theorem ahead_lt {c e : Cursor} {s : Tape} (htape : c.tape = s) (htape' : e.tape = s)
    (hindex : c.index + 1 ≤ e.index) : e.ahead.length < c.ahead.length := by
  have hlength := c.length_tape
  rw [htape, ← htape', e.length_tape] at hlength
  omega

/-- Loops stay in step, whether or not their budgets are the same: neither of them is ever exhausted,
since each round consumes a token. -/
theorem repeatAt (hend : goesOn .endOfInput = false)
    (hround : ∀ a b, R a b → w.Follows 0 1 (step a) (step' b) R) (budget budget' : List Token) {a b : α}
    (hab : R a b) (hstep : w.InStep c d) (hbudget : c.ahead.length ≤ budget.length)
    (hbudget' : d.ahead.length ≤ budget'.length) :
    w.Meets c.index R (Reading.repeatAt goesOn step budget a c)
      (Reading.repeatAt goesOn step' budget' b d) := by
  -- By induction on the budget of the left loop, while the right one keeps its own.
  induction budget generalizing a b c d budget' with
  | nil =>
    have hkind : goesOn c.kind = false := by
      by_contra hgo
      have hne : c.kind ≠ .endOfInput := fun hkind => hgo (hkind ▸ hend)
      exact c.ahead_ne_nil hne (List.eq_nil_of_length_eq_zero (by simpa using hbudget))
    rw [Reading.repeatAt_of_stop _ _ hkind, Reading.repeatAt_of_stop _ _ (hstep.kind ▸ hkind)]
    exact .done hab hstep (Nat.le_refl _)
  | cons token budget ih =>
    by_cases hgo : goesOn c.kind = true
    · -- The right loop has something left of its budget too, since it is not at the end of input.
      have hne : d.kind ≠ .endOfInput := fun hkind => by
        rw [← hstep.kind, hkind, hend] at hgo
        cases hgo
      obtain ⟨token', budget', rfl⟩ : ∃ token' rest, budget' = token' :: rest := by
        refine List.exists_cons_of_ne_nil fun hnil => d.ahead_ne_nil hne ?_
        exact List.eq_nil_of_length_eq_zero (by simpa [hnil] using hbudget')
      rw [Reading.repeatAt_of_go _ _ hgo, Reading.repeatAt_of_go _ _ (hstep.kind ▸ hgo)]
      have hforward (a : α) : (Reading.repeatAt goesOn step budget a).Forward := inferInstance
      refine (hround a b hab hstep (Nat.zero_le _)).bind fun a b e e' hab hstep' hindex => ?_
      have hless := ahead_lt hstep.left hstep'.left hindex
      have hless' := ahead_lt hstep.right hstep'.right (by rw [hstep.index, hstep'.index]; omega)
      simp only [List.length_cons] at hbudget hbudget'
      exact (ih budget' hab hstep' (by omega) (by omega)).mono (by omega)
    · have hkind : goesOn c.kind = false := by simpa using hgo
      rw [Reading.repeatAt_of_stop _ _ hkind, Reading.repeatAt_of_stop _ _ (hstep.kind ▸ hkind)]
      exact .done hab hstep (Nat.le_refl _)

theorem whileAt (hend : goesOn .endOfInput = false)
    (hround : ∀ a b, R a b → w.Follows 0 1 (step a) (step' b) R) {a b : α} (hab : R a b) :
    w.Follows least 0 (Reading.whileAt goesOn step a) (Reading.whileAt goesOn step' b) R :=
  fun c d hstep _ => repeatAt hend hround c.ahead d.ahead hab hstep (Nat.le_refl _) (Nat.le_refl _)

theorem many [x.Forward] (hend : goesOn .endOfInput = false) (hx : w.Follows 0 1 x y R) :
    w.Follows least 0 (Reading.many goesOn x) (Reading.many goesOn y) (List.Forall₂ R) := by
  have hround (read read' : List α) (hread : List.Forall₂ R read read') :
      w.Follows 0 1 ((· :: read) <$> x) ((· :: read') <$> y) (List.Forall₂ R) :=
    hx.map fun a b hab => .cons hab hread
  exact (whileAt hend hround .nil).map fun read read' hread => List.rel_reverse hread

/-! ## Nesting -/

theorem enter : w.Follows least 0 Reading.enter Reading.enter fun _ _ => True := by
  intro c d hstep _
  rw [Reading.enter, Reading.enter, Cursor.enter?, Cursor.enter?, hstep.depth]
  by_cases hroom : c.depth < maxNesting
  · rw [if_pos hroom, if_pos hroom]
    exact .done trivial (hstep.withDepth _) (Nat.le_refl _)
  · rw [if_neg hroom, if_neg hroom]
    exact .failed hstep.tooDeep hstep

theorem leave : w.Follows least 0 Reading.leave Reading.leave fun _ _ => True :=
  fun _ _ hstep _ => .done trivial hstep.leave (Nat.le_refl _)

theorem closing (hx : w.Follows least gain x y R) :
    w.Follows least gain (Reading.closing x) (Reading.closing y) R := by
  intro c d hstep hle
  have hmeets := hx hstep hle
  rw [Reading.closing, Reading.closing]
  generalize x c = o at hmeets ⊢
  generalize y d = o' at hmeets ⊢
  cases hmeets with
  | done hab hstep hindex => exact .done hab hstep.leave hindex
  | failed hfg hstep => exact .failed hfg hstep.leave
  | beyond h => cases o <;> exact .beyond ⟨h.past, h.further⟩

theorem within [x.Forward] (hx : w.Follows least gain x y R) :
    w.Follows least gain (Reading.within x) (Reading.within y) R := by
  rw [Reading.within_eq, Reading.within_eq]
  exact enter.bind fun _ _ _ => hx.closing

theorem atCursor {construct construct' : Grammar.Inner → Reading α}
    (h : ∀ levels, w.Follows least gain (construct (Grammar.nested levels))
      (construct' (Grammar.nested levels)) R) :
    w.Follows least gain (Grammar.atCursor construct) (Grammar.atCursor construct') R := by
  intro c d hstep hle
  rw [Grammar.atCursor, Grammar.atCursor, hstep.room]
  exact h _ hstep hle

end Follows

end

end TapePair

end WattFront
