import WattFront.Proofs.Grammar.OpenLevels

/-! # Failures that more tokens mend

A reading that fails for want of a token has passed tokens that can be gone on with: there are some more
tokens that make a whole construct of them. The form of the construct says so, so nothing is read again.

* `Form.Completes` — tokens that can be gone on with, in front of every token that ends the construct;
* `Spelling.Fixed`, `Spelling.Both` — a token, and two constructs one after the other;
* `Reading.Resumes` — a reading that stops at tokens of this kind only, with one lemma for each way to put
  readings together.
-/

namespace WattFront

open Grammar Spelling

def TokenKind.sample (kind : TokenKind) : Token :=
  ⟨kind, if kind = .number then "1" else kind.lexeme, default⟩

/-- A failure is about a missing token, and there is room for one level more. -/
structure Cursor.Misses (d : Cursor) (f : Failure) : Prop where
  category : f.cause.category = .unexpectedToken ∨ f.cause.category = .unexpectedEnd
  room : d.depth < maxNesting

/-- A cursor has passed some tokens and may have opened levels. -/
def Cursor.Reaches (c : Cursor) (tokens : List Token) (d : Cursor) : Prop :=
  c.Passes tokens { d with depth := c.depth }

/-- Some tokens, and more of them, are spelled like a construct in front of every token that ends it. If there
are only the latter, what stands at their front opens as stated. -/
def Form.Completes {α : Type} (form : Form α) (opens ends : TokenKind → Prop) (tokens : List Token) : Prop :=
  ∃ more : List Token, (∀ token ∈ more, token.kind ≠ .endOfInput) ∧ ∀ ⦃next : Token⦄, ends next.kind →
    (∃ a, form (tokens ++ more) next a) ∧ (tokens = [] → opens (more.headD next).kind)

/-! ## Forms in a row -/

namespace Spelling

variable {α β : Type} {kind : TokenKind} {first : Form α} {rest : Form β}

inductive Fixed (kind : TokenKind) : Form Token
  | intro {token next} (hkind : token.kind = kind) : Fixed kind [token] next token

inductive Both (first : Form α) (rest : Form β) : Form (α × β)
  | intro {tokens others next a b} (hfirst : first tokens (others.headD next) a)
    (hrest : rest others next b) : Both first rest (tokens ++ others) next (a, b)

inductive Headed (kind : TokenKind) (rest : Form β) : Form β
  | intro {first others next b} (hkind : first.kind = kind) (hrest : rest others next b) :
    Headed kind rest (first :: others) next b

/-- Tokens that make a construct of the one in front of them. -/
def Growing (first : Form α) (whole : Form β) : Form Unit :=
  fun others next _ => ∀ ⦃tokens a⦄, first tokens (others.headD next) a → ∃ b, whole (tokens ++ others) next b

theorem fixed_endsBefore : (Fixed kind).EndsBefore fun _ => True := by
  intro tokens next next' token hfixed _
  obtain ⟨hkind⟩ := hfixed
  exact .intro hkind

theorem fixed_opens : (Fixed kind).Opens (· = kind) := by
  intro tokens next token hfixed
  obtain ⟨hkind⟩ := hfixed
  exact ⟨token, [], rfl, hkind⟩

end Spelling

namespace Cursor.Reaches

variable {c d e : Cursor} {tokens others : List Token}

theorem refl (c : Cursor) : c.Reaches [] c :=
  Passes.refl c

theorem after (h : e.Reaches others d) (hpass : c.Passes tokens e) : c.Reaches (tokens ++ others) d := by
  rw [Reaches, hpass.depth] at h
  exact hpass.trans h

theorem enter (h : Cursor.Reaches { c with depth := c.depth + 1 } tokens d) : c.Reaches tokens d :=
  ⟨h.ahead, h.behind, h.inside, h.ending, h.file, rfl⟩

/-- What has been reached starts with the current token. -/
theorem headD_eq (h : c.Reaches tokens d) (hne : tokens ≠ []) (next : Token) : tokens.headD next = c.current := by
  obtain ⟨token, others, rfl⟩ := List.exists_cons_of_ne_nil hne
  exact h.current.symm

end Cursor.Reaches

namespace Form.Completes

variable {α β : Type} {form : Form α} {form' : Form β} {opens opens' ends ends' mid : TokenKind → Prop}
  {tokens others : List Token}

theorem mono (h : form.Completes opens ends tokens) (hopens : ∀ kind, opens kind → opens' kind)
    (hends : ∀ kind, ends' kind → ends kind) : form.Completes opens' ends' tokens := by
  obtain ⟨more, hinside, hmore⟩ := h
  refine ⟨more, hinside, fun next hnext => ?_⟩
  exact (hmore (hends _ hnext)).imp_right fun hhead hnil => hopens _ (hhead hnil)

theorem imp (h : form.Completes opens ends tokens)
    (himp : ∀ ⦃tokens next a⦄, ends next.kind → form tokens next a → ∃ b, form' tokens next b) :
    form'.Completes opens ends tokens := by
  obtain ⟨more, hinside, hmore⟩ := h
  refine ⟨more, hinside, fun next hnext => ?_⟩
  obtain ⟨⟨a, hform⟩, hhead⟩ := hmore hnext
  exact ⟨himp hnext hform, hhead⟩

/-- What goes on with the first construct, and then a whole second one. -/
theorem both (h : form.Completes opens mid tokens) (h' : form'.Completes opens' ends [])
    (hmid : ∀ kind, opens' kind → mid kind) : (Both form form').Completes opens ends tokens := by
  obtain ⟨more, hinside, hmore⟩ := h
  obtain ⟨more', hinside', hmore'⟩ := h'
  refine ⟨more ++ more', fun token member => ?_, fun next hnext => ?_⟩
  · rcases List.mem_append.1 member with member | member
    · exact hinside token member
    · exact hinside' token member
  · obtain ⟨⟨b, hrest⟩, hhead⟩ := hmore' hnext
    obtain ⟨⟨a, hfirst⟩, hopens⟩ := hmore (hmid _ (hhead rfl))
    rw [headD_append]
    refine ⟨⟨(a, b), ?_⟩, hopens⟩
    rw [← List.append_assoc]
    exact .intro hfirst hrest

/-- Behind a whole first construct, what goes on with the second one. -/
theorem behind {next : Token} {a : α} (hfirst : form tokens next a) (hform : form.EndsBefore mid)
    (h : form'.Completes opens' ends others) (hcurrent : others ≠ [] → ∀ other : Token, others.headD other = next)
    (hmid : ∀ kind, opens' kind → mid kind) (hopens : tokens = [] → ∀ kind, opens' kind → opens kind) :
    (Both form form').Completes opens ends (tokens ++ others) := by
  obtain ⟨more, hinside, hmore⟩ := h
  refine ⟨more, hinside, fun other hother => ?_⟩
  obtain ⟨⟨b, hrest⟩, hhead⟩ := hmore hother
  refine ⟨⟨(a, b), ?_⟩, fun hnil => ?_⟩
  · rw [List.append_assoc]
    refine .intro ?_ hrest
    by_cases hnil : others = []
    · rw [hnil, List.nil_append]
      exact hform hfirst (hmid _ (hhead hnil))
    · rwa [headD_append, hcurrent hnil]
  · obtain ⟨htokens, hothers⟩ := List.append_eq_nil_iff.1 hnil
    exact hopens htokens _ (hhead hothers)

/-- What has been reached behind a whole first construct goes on with the second one. -/
theorem after {c d e : Cursor} {a : α} (hpass : c.Passes tokens e) (hfirst : form tokens e.current a)
    (hform : form.EndsBefore mid) (hreach : e.Reaches others d) (h : form'.Completes opens' ends others)
    (hmid : ∀ kind, opens' kind → mid kind) (hopens : tokens = [] → ∀ kind, opens' kind → opens kind) :
    ∃ tokens, c.Reaches tokens d ∧ (Both form form').Completes opens ends tokens := by
  refine ⟨tokens ++ others, hreach.after hpass, behind hfirst hform h ?_ hmid hopens⟩
  exact fun hne next => hreach.headD_eq hne next

theorem headed {kind : TokenKind} (h : (Both (Fixed kind) form).Completes opens ends tokens) :
    (Headed kind form).Completes opens ends tokens := by
  refine h.imp fun _ _ _ _ hboth => ?_
  obtain ⟨⟨hkind⟩, hrest⟩ := hboth
  exact ⟨_, .intro hkind hrest⟩

/-- What makes a construct of the one in front of it goes on with that one. -/
theorem grown {whole : Form β} (h : (Both form (Growing form whole)).Completes opens ends tokens) :
    whole.Completes opens ends tokens := by
  refine h.imp fun _ _ _ _ hboth => ?_
  obtain ⟨hfirst, hgrows⟩ := hboth
  exact hgrows hfirst

theorem fixed {kind : TokenKind} (hkind : kind ≠ .endOfInput) :
    (Fixed kind).Completes (· = kind) ends [] := by
  refine ⟨[kind.sample], List.forall_mem_singleton.2 hkind, fun next _ => ⟨⟨kind.sample, ?_⟩, fun _ => rfl⟩⟩
  exact .intro rfl

end Form.Completes

namespace Reading

/-- Where a reading that starts at a token of a guarded kind fails for want of a token, what it has passed can be
gone on with. -/
def ResumesAt {α β : Type} (guard : TokenKind → Prop) (levels : Nat) (x : Reading α) (form : Form β)
    (opens ends : TokenKind → Prop) : Prop :=
  ∀ ⦃c d f⦄, guard c.kind → c.depth + levels = maxNesting → x c = .failed f d → d.Misses f →
    ∃ tokens, c.Reaches tokens d ∧ form.Completes opens ends tokens

/-- A reading whose failures can be mended by more tokens, and what may stand in its place altogether. -/
structure Resumes {α β : Type} (levels : Nat) (x : Reading α) (form : Form β) (opens ends : TokenKind → Prop) :
    Prop where
  atEnd : ends .endOfInput
  sample : form.Completes opens ends []
  resumes : x.ResumesAt (fun _ => True) levels form opens ends

section

variable {α β γ δ : Type} {guard guard' : TokenKind → Prop} {levels : Nat} {x : Reading α} {f : α → Reading β}
  {form : Form γ} {form' : Form δ} {opens opens' ends ends' mid : TokenKind → Prop} {kind : TokenKind}

theorem bind_eq_failed {c d : Cursor} {failure : Failure} :
    (x >>= f) c = .failed failure d ↔
      x c = .failed failure d ∨ ∃ a e, x c = .done a e ∧ f a e = .failed failure d := by
  rw [bind_apply]
  cases x c with
  | done a e => simp [Outcome.bind, and_assoc]
  | failed => simp [Outcome.bind]

class Succeeds {α : Type} (x : Reading α) : Prop where
  succeeds (c : Cursor) (failure : Failure) (d : Cursor) : x c ≠ .failed failure d

instance Succeeds.pure {α : Type} (a : α) : (Pure.pure a : Reading α).Succeeds :=
  ⟨fun _ _ _ h => by cases h⟩

instance Succeeds.spanFrom (start : Position) : (Reading.spanFrom start).Succeeds :=
  ⟨fun _ _ _ h => by cases h⟩

instance Succeeds.accept (kind : TokenKind) : (Reading.accept kind).Succeeds where
  succeeds c failure d h := by
    rw [Reading.accept] at h
    split at h <;> cases h

instance Succeeds.bind {x : Reading α} {f : α → Reading β} [hx : x.Succeeds] [hf : ∀ a, (f a).Succeeds] :
    (x >>= f).Succeeds where
  succeeds c failure d h := by
    rcases bind_eq_failed.1 h with h | ⟨a, e, -, h⟩
    · exact hx.succeeds c failure d h
    · exact (hf a).succeeds e failure d h

namespace ResumesAt

theorem imp (h : x.ResumesAt guard levels form opens ends)
    (himp : ∀ ⦃tokens next a⦄, ends next.kind → form tokens next a → ∃ b, form' tokens next b) :
    x.ResumesAt guard levels form' opens ends := by
  intro c d f hguard room hfailed hmisses
  obtain ⟨tokens, hreach, hcompletes⟩ := h hguard room hfailed hmisses
  exact ⟨tokens, hreach, hcompletes.imp himp⟩

theorem of_guard (h : x.ResumesAt guard levels form opens ends) (hguard : ∀ kind, guard' kind → guard kind) :
    x.ResumesAt guard' levels form opens ends :=
  fun _ _ _ hkind => h (hguard _ hkind)

theorem mono (h : x.ResumesAt guard levels form opens ends) (hopens : ∀ kind, opens kind → opens' kind)
    (hends : ∀ kind, ends' kind → ends kind) : x.ResumesAt guard levels form opens' ends' := by
  intro c d f hguard room hfailed hmisses
  obtain ⟨tokens, hreach, hcompletes⟩ := h hguard room hfailed hmisses
  exact ⟨tokens, hreach, hcompletes.mono hopens hends⟩

/-- A reading that goes on without ever failing. -/
theorem last [hf : ∀ a, (f a).Succeeds] (h : x.ResumesAt guard levels form opens ends) :
    (x >>= f).ResumesAt guard levels form opens ends := by
  intro c d failure hguard room hfailed hmisses
  rcases bind_eq_failed.1 hfailed with hfailed | ⟨a, e, -, hfailed⟩
  · exact h hguard room hfailed hmisses
  · exact absurd hfailed ((hf a).succeeds e failure d)

theorem map {k : α → β} (h : x.ResumesAt guard levels form opens ends) :
    (k <$> x).ResumesAt guard levels form opens ends :=
  fun _ _ _ hguard room hfailed => h hguard room (map_eq_failed.1 hfailed)

/-- A token whose kind is known is passed, so something has been passed wherever the rest fails. -/
theorem advance (hkind : kind != .endOfInput) {f : Token → Reading β}
    (hf : ∀ token : Token, token.kind = kind → (f token).Resumes levels form opens ends) :
    (Reading.advance >>= f).ResumesAt (· = kind) levels (Headed kind form) (fun _ => False) ends := by
  intro c d failure hguard room hfailed hmisses
  have hpass : c.Passes [c.current] c.next := .next c (hguard ▸ bne_iff_ne.1 hkind)
  rw [advance_bind] at hfailed
  obtain ⟨others, hreach, hcompletes⟩ :=
    (hf c.current hguard).resumes trivial (hpass.depth ▸ room) hfailed hmisses
  obtain ⟨tokens, hreach, hcompletes⟩ :=
    hcompletes.after hpass (.intro hguard) fixed_endsBefore hreach (fun _ _ => trivial) nofun
  exact ⟨tokens, hreach, hcompletes.headed⟩

/-- Where a token of no use is all that stands, a whole construct is put in. -/
theorem unexpected (h : form.Completes opens ends []) (expected : String) :
    (Reading.unexpected expected : Reading α).ResumesAt guard levels form opens ends := by
  intro c d failure _ _ hfailed _
  cases hfailed
  exact ⟨[], .refl c, h⟩

/-- Where a round of a loop fails, what goes on with it goes on with all that the rounds before it have made. -/
theorem whileAt {goesOn : TokenKind → Bool} {step : α → Reading α} {form : Form α} {p : TokenKind → Prop}
    {c₀ c d : Cursor} {failure : Failure} {tokens : List Token} {a : α}
    (hstep : ∀ a, (step a).ResumesAt (goesOn · = true) levels (Growing form form) opens' ends)
    (hgrows : ∀ ⦃tokens a c b d⦄, c₀.Passes tokens c → form tokens c.current a → goesOn c.kind = true →
      step a c = .done b d → ∃ tokens, c₀.Passes tokens d ∧ form tokens d.current b)
    (hform : form.EndsBefore mid) (hfirst : form.Opens p) (hmid : ∀ kind, opens' kind → mid kind)
    (room : c₀.depth + levels = maxNesting) (hpass : c₀.Passes tokens c) (hmade : form tokens c.current a)
    (hfailed : Reading.whileAt goesOn step a c = .failed failure d) (hmisses : d.Misses failure) :
    ∃ tokens, c₀.Reaches tokens d ∧ form.Completes opens ends tokens := by
  obtain ⟨b, e, hrounds, hgo, hround⟩ := exists_rounds_of_failed hfailed
  obtain ⟨front, hfront, hmade⟩ : ∃ front, c₀.Passes front e ∧ form front e.current b := by
    refine hrounds.keeps (P := fun a c => ∃ front, c₀.Passes front c ∧ form front c.current a) ?_ ?_
    · exact ⟨tokens, hpass, hmade⟩
    intro a c b d hmade hgo hdone
    obtain ⟨tokens, hpass, hmade⟩ := hmade
    exact hgrows hpass hmade hgo hdone
  have hne : front ≠ [] := by
    obtain ⟨first, rest, rfl, -⟩ := hfirst hmade
    exact List.cons_ne_nil _ _
  obtain ⟨others, hreach, hcompletes⟩ := hstep b hgo (hfront.depth ▸ room) hround hmisses
  obtain ⟨tokens, hreach, hcompletes⟩ :=
    hcompletes.after hfront hmade hform hreach hmid fun hnil => absurd hnil hne
  exact ⟨tokens, hreach, hcompletes.grown⟩

end ResumesAt

namespace Resumes

theorem imp (h : x.Resumes levels form opens ends)
    (himp : ∀ ⦃tokens next a⦄, ends next.kind → form tokens next a → ∃ b, form' tokens next b) :
    x.Resumes levels form' opens ends :=
  ⟨h.atEnd, h.sample.imp himp, h.resumes.imp himp⟩

theorem mono (h : x.Resumes levels form opens ends) (hend : ends' .endOfInput)
    (hopens : ∀ kind, opens kind → opens' kind) (hends : ∀ kind, ends' kind → ends kind) :
    x.Resumes levels form opens' ends' :=
  ⟨hend, h.sample.mono hopens hends, h.resumes.mono hopens hends⟩

theorem resumesAt (h : x.Resumes levels form opens ends) : x.ResumesAt guard levels form opens ends :=
  h.resumes.of_guard fun _ _ => trivial

/-- What opens a construct need not be known. -/
theorem anywhere (h : x.Resumes levels form opens ends) (hends : ∀ kind, ends' kind → ends kind) :
    x.ResumesAt guard levels form (fun _ => True) ends' :=
  h.resumesAt.mono (fun _ _ => trivial) hends

/-- A reading that looks at the current token first is mended as that token says. -/
theorem ofKind {f : TokenKind → Reading α} (hend : ends .endOfInput) (hsample : form.Completes opens ends [])
    (hf : ∀ kind, (f kind).ResumesAt (· = kind) levels form opens ends) :
    (Reading.kind >>= f).Resumes levels form opens ends := by
  refine ⟨hend, hsample, fun c d failure _ room hfailed hmisses => ?_⟩
  rw [kind_bind] at hfailed
  exact hf c.kind rfl room hfailed hmisses

/-- A reading that opens a level is mended inside of it. -/
theorem around [hf : ∀ a, (f a).Succeeds] (h : x.Resumes levels form opens ends) :
    (do Reading.enter; let a ← x; Reading.leave; f a).Resumes (levels + 1) form opens ends := by
  refine ⟨h.atEnd, h.sample, fun c d failure _ room hfailed hmisses => ?_⟩
  rw [enter_bind _ (by omega)] at hfailed
  have hinside : ({ c with depth := c.depth + 1 } : Cursor).depth + levels = maxNesting := by
    rwa [← Nat.add_right_comm, Nat.add_assoc]
  rcases bind_eq_failed.1 hfailed with hfailed | ⟨a, e, -, hfailed⟩
  · obtain ⟨tokens, hreach, hcompletes⟩ := h.resumes trivial hinside hfailed hmisses
    exact ⟨tokens, hreach.enter, hcompletes⟩
  · rw [leave_bind] at hfailed
    exact absurd hfailed ((hf a).succeeds _ _ _)

/-- Without room for a level nothing is missing, so there is nothing to mend. -/
theorem of_full {y : Reading α} (hholds : Reading.Holds y x) (hend : ends .endOfInput)
    (hsample : form.Completes opens ends []) : x.Resumes 0 form opens ends := by
  refine ⟨hend, hsample, fun c d failure _ room hfailed hmisses => ?_⟩
  have hdepth := hholds.holds c
  generalize y c = o at hdepth
  rw [hfailed] at hdepth
  cases hdepth with
  | failed hlevels =>
    have hroom := hmisses.room
    simp only at hroom
    omega

/-! ## Tokens and sequences -/

/-- A reading that goes on without ever failing. -/
theorem last [∀ a, (f a).Succeeds] (h : x.Resumes levels form opens ends) :
    (x >>= f).Resumes levels form opens ends :=
  ⟨h.atEnd, h.sample, h.resumes.last⟩

theorem map {k : α → β} (h : x.Resumes levels form opens ends) : (k <$> x).Resumes levels form opens ends :=
  ⟨h.atEnd, h.sample, h.resumes.map⟩

/-- Two readings one after the other. The first one may end in front of whatever opens the second. -/
theorem bind_of_le {form : Form α} (hx : x.Resumes levels form opens mid) (haccepts : x.Accepts levels form)
    (hform : form.EndsBefore mid) (hf : ∀ a, (f a).Resumes levels form' opens' ends)
    (hmid : ∀ kind, opens' kind → mid kind)
    (hopens : ∀ ⦃next a⦄, form [] next a → ∀ kind, opens' kind → opens kind) :
    (x >>= f).Resumes levels (Both form form') opens ends := by
  obtain ⟨more, hinside, hmore⟩ := hx.sample
  obtain ⟨⟨a, -⟩, -⟩ := @hmore (.endOfInput default) hx.atEnd
  refine ⟨(hf a).atEnd, hx.sample.both (hf a).sample hmid, fun c d failure hguard room hfailed hmisses => ?_⟩
  obtain hfailed | ⟨b, e, hdone, hfailed⟩ := bind_eq_failed.1 hfailed
  · -- The first construct has to be gone on with, and nothing of the second one is there.
    obtain ⟨tokens, hreach, hcompletes⟩ := hx.resumes hguard room hfailed hmisses
    exact ⟨tokens, hreach, hcompletes.both (hf a).sample hmid⟩
  · obtain ⟨tokens, hpass, hfirst⟩ := (haccepts trivial room.le b e).1 hdone
    obtain ⟨others, hreach, hcompletes⟩ := (hf b).resumes trivial (hpass.depth ▸ room) hfailed hmisses
    apply hcompletes.after hpass hfirst hform hreach hmid
    rintro rfl
    exact hopens hfirst

/-- Two readings one after the other, the first of which consumes a token. -/
theorem bind {form : Form α} {p : TokenKind → Prop} (hx : x.Resumes levels form opens mid)
    (haccepts : x.Accepts levels form) (hform : form.EndsBefore mid) (hfirst : form.Opens p)
    (hf : ∀ a, (f a).Resumes levels form' opens' ends) (hmid : ∀ kind, opens' kind → mid kind) :
    (x >>= f).Resumes levels (Both form form') opens ends := by
  refine hx.bind_of_le haccepts hform hf hmid fun next a hnil => ?_
  obtain ⟨first, others, htokens, -⟩ := hfirst hnil
  cases htokens

/-- A token that is missing is put in. -/
theorem expectAs (hkind : kind != .endOfInput) (expected : String) :
    (Reading.expectAs kind expected).Resumes levels (Fixed kind) (· = kind) fun _ => True := by
  have hsample : (Fixed kind).Completes (· = kind) (fun _ => True) [] := .fixed (bne_iff_ne.1 hkind)
  refine ⟨trivial, hsample, fun c d failure _ _ hfailed _ => ?_⟩
  rw [Reading.expectAs] at hfailed
  split at hfailed
  · cases hfailed
  · cases hfailed
    exact ⟨[], .refl c, hsample⟩

theorem accepts_expectAs (hkind : kind != .endOfInput) (expected : String) :
    (Reading.expectAs kind expected).Accepts levels (Fixed kind) := by
  intro c _ _ token d
  have hdone : (Reading.expectAs kind expected >>= pure) c = .done token d ↔ _ := expectAs_bind_iff kind hkind
  rw [bind_pure] at hdone
  rw [hdone]
  constructor
  · rintro ⟨_, e, hpass, htoken, hpure⟩
    cases hpure
    exact ⟨_, hpass, .intro htoken⟩
  · rintro ⟨_, hpass, ⟨htoken⟩⟩
    exact ⟨token, d, hpass, htoken, rfl⟩

/-- A token of a kind and what comes behind it. -/
theorem token (hkind : kind != .endOfInput) {expected : String} {f : Token → Reading β}
    (hf : ∀ token, (f token).Resumes levels form opens ends) :
    (Reading.expectAs kind expected >>= f).Resumes levels (Headed kind form) (· = kind) ends := by
  have hboth := (expectAs hkind expected).bind (accepts_expectAs hkind expected) fixed_endsBefore fixed_opens hf
    fun _ _ => trivial
  refine hboth.imp fun _ _ _ _ hform => ?_
  obtain ⟨⟨hkind⟩, hrest⟩ := hform
  exact ⟨_, .intro hkind hrest⟩

/-! ## Clauses and lists -/

theorem ifAt (hx : x.ResumesAt (· = kind) levels form opens ends) (hkind : kind != .endOfInput)
    (hend : ends .endOfInput) :
    (Reading.ifAt kind x).Resumes levels (Clause kind form) (fun k => opens k ∨ ends k ∧ k ≠ kind)
      fun k => ends k ∧ k ≠ kind := by
  refine ⟨⟨hend, (bne_iff_ne.1 hkind).symm⟩, ?_, fun c d failure _ room hfailed hmisses => ?_⟩
  · exact ⟨[], List.forall_mem_nil _, fun next hnext => ⟨⟨none, .none hnext.2⟩, fun _ => .inr hnext⟩⟩
  · rw [Reading.ifAt] at hfailed
    split at hfailed
    · next hguard =>
      obtain ⟨tokens, hreach, hcompletes⟩ := hx hguard room (map_eq_failed.1 hfailed) hmisses
      have hclause : (Clause kind form).Completes opens ends tokens :=
        hcompletes.imp fun _ _ a _ hform => ⟨some a, .some hform⟩
      exact ⟨tokens, hreach, hclause.mono (fun _ => .inl) fun _ => And.left⟩
    · cases hfailed

/-- Items one after the other. If nothing of an item is there, the items in front of it are enough. -/
theorem many {goesOn : TokenKind → Bool} {x : Reading α} {form : Form α}
    (hx : x.ResumesAt (goesOn · = true) levels form opens ends)
    (haccepts : x.AcceptsAt (goesOn · = true) levels form) (hfirst : form.Opens (goesOn · = true))
    (hform : form.EndsBefore ends) (hgoesOn : goesOn .endOfInput = false) (hend : ends .endOfInput) :
    (Reading.many goesOn x).Resumes levels (Many goesOn form) (fun k => ends k ∧ goesOn k = false)
      fun k => ends k ∧ goesOn k = false := by
  refine ⟨⟨hend, hgoesOn⟩, ?_, fun c d failure _ room hfailed hmisses => ?_⟩
  · exact ⟨[], List.forall_mem_nil _, fun next hnext => ⟨⟨[], .nil hnext.2⟩, fun _ => hnext⟩⟩
  · obtain ⟨tokens, as, e, hpass, hitems, hgo, hitem⟩ := (many_eq_failed hgoesOn hfirst haccepts room.le).1 hfailed
    obtain ⟨others, hreach, more, hinside, hmore⟩ := hx hgo (hpass.depth ▸ room) hitem hmisses
    refine ⟨tokens ++ others, hreach.after hpass, ?_⟩
    by_cases hnil : others = []
    · refine ⟨[], List.forall_mem_nil _, fun next hnext => ⟨⟨as, ?_⟩, fun _ => hnext⟩⟩
      rw [hnil, List.append_nil, List.append_nil]
      exact many_iff.2 ⟨Several.endsBefore hform hitems hnext.1, hnext.2⟩
    · refine ⟨more, hinside, fun next hnext => ⟨?_, fun h => absurd (List.append_eq_nil_iff.1 h).2 hnil⟩⟩
      obtain ⟨⟨a, hmended⟩, -⟩ := hmore hnext.1
      have hone : Several form (others ++ more) next [a] := by
        have hcons : Several form ((others ++ more) ++ []) next [a] := .cons hmended .nil
        rwa [List.append_nil] at hcons
      rw [← hreach.headD_eq hnil (more.headD next), ← headD_append] at hitems
      exact ⟨as ++ [a], by rw [List.append_assoc]; exact many_iff.2 ⟨hitems.append hone, hnext.2⟩⟩

/-- Items in a row and what stands behind them, which opens no further item. -/
theorem manyThen {goesOn : TokenKind → Bool} {x : Reading α} {form : Form α} {f : List α → Reading β}
    (hx : x.ResumesAt (goesOn · = true) levels form opens mid)
    (haccepts : x.AcceptsAt (goesOn · = true) levels form) (hfirst : form.Opens (goesOn · = true))
    (hform : form.EndsBefore mid) (hgoesOn : goesOn .endOfInput = false) (hend : mid .endOfInput)
    (hf : ∀ as, (f as).Resumes levels form' opens' ends)
    (hmid : ∀ kind, opens' kind → mid kind ∧ goesOn kind = false) :
    (Reading.many goesOn x >>= f).Resumes levels (Both (Many goesOn form) form')
      (fun k => mid k ∧ goesOn k = false) ends :=
  (many hx haccepts hfirst hform hgoesOn hend).bind_of_le (accepts_many hgoesOn hfirst haccepts)
    (many_endsBefore hform) hf hmid fun _ _ _ => hmid

/-- A clause that may be missing and what stands behind it, which is no such clause. -/
theorem clauseThen {x : Reading α} {form : Form α} {f : Option α → Reading β}
    (hx : x.ResumesAt (· = kind) levels form opens mid) (haccepts : x.AcceptsAt (· = kind) levels form)
    (hfirst : form.Opens (· = kind)) (hform : form.EndsBefore mid) (hkind : kind != .endOfInput)
    (hend : mid .endOfInput) (hf : ∀ a?, (f a?).Resumes levels form' opens' ends)
    (hmid : ∀ k, opens' k → mid k ∧ k ≠ kind) :
    (Reading.ifAt kind x >>= f).Resumes levels (Both (Clause kind form) form')
      (fun k => opens k ∨ mid k ∧ k ≠ kind) ends :=
  (ifAt hx hkind hend).bind_of_le (accepts_ifAt hfirst haccepts) (clause_endsBefore hform) hf hmid
    fun _ _ _ k hk => .inr (hmid k hk)

section

variable {x : Reading α} {form : Form α} {p : TokenKind → Prop} (hx : x.Resumes levels form opens ends)
  (haccepts : x.Accepts levels form) (hform : form.EndsBefore ends) (hfirst : form.Opens p)

include hx haccepts hform hfirst

theorem separated :
    (Grammar.separated x).Resumes levels (Separated form) opens fun k => ends k ∧ k ≠ .comma := by
  have hfurther : (do let _ ← Reading.advance; x : Reading α).ResumesAt (isComma · = true) levels
      (Further form) (fun _ => False) ends := by
    have hcomma : TokenKind.comma != .endOfInput := rfl
    have hitem := ResumesAt.advance hcomma fun _ _ => hx
    refine (hitem.imp fun _ _ _ _ hboth => ?_).of_guard fun kind hkind => by simpa [isComma] using hkind
    obtain ⟨hcomma, hitem⟩ := hboth
    exact ⟨_, .intro hcomma hitem⟩
  have hopens : (Further form).Opens (isComma · = true) := by
    rintro _ _ _ ⟨hcomma, -⟩
    exact ⟨_, _, rfl, by simpa [isComma] using hcomma⟩
  have hends : (Further form).EndsBefore ends := by
    rintro _ _ _ _ ⟨hcomma, hitem⟩ hnext
    exact .intro hcomma (hform hitem hnext)
  have hmany := many hfurther (accepts_further haccepts) hopens hends rfl hx.atEnd
  have hboth := hx.bind haccepts hform hfirst (fun first => hmany.map (k := (first :: ·))) fun _ => And.left
  refine (hboth.imp fun _ _ _ _ hboth => ?_).mono ⟨hx.atEnd, by decide⟩ (fun _ => id) fun k hk => ?_
  · obtain ⟨hfirst, hothers⟩ := hboth
    exact ⟨_, separated_iff.2 ⟨_, _, _, _, rfl, rfl, hfirst, hothers⟩⟩
  · exact ⟨hk.1, by simpa [isComma] using hk.2⟩

omit hx haccepts hform hfirst in
theorem closing {closing : TokenKind} (hclosing : closing != .endOfInput) (b : β) :
    (do let _ ← Reading.expect closing; pure b : Reading β).Resumes levels (Fixed closing) (· = closing)
      fun _ => True :=
  (expectAs hclosing _).last

/-- One item or more and the closing bracket behind them. -/
theorem closed {closing : TokenKind} (hclosing : closing != .endOfInput) (hends : ends closing)
    (hcomma : closing != .comma) :
    (do let items ← Grammar.separated x; let _ ← Reading.expect closing; pure items).Resumes levels
      (Both (Separated form) (Fixed closing)) opens fun _ => True := by
  refine (separated hx haccepts hform hfirst).bind (accepts_separated haccepts) (separated_endsBefore hform)
    (separated_opens hfirst) (Resumes.closing hclosing) ?_
  rintro _ rfl
  exact ⟨hends, bne_iff_ne.1 hcomma⟩

/-- A comma list with its closing bracket, which may always be put in. -/
theorem commaList {closing : TokenKind} (hclosing : closing != .endOfInput) (hends : ends closing)
    (hcomma : closing != .comma) :
    (Grammar.commaList closing x).Resumes levels (CommaList closing form) (fun _ => True) fun _ => True := by
  have hempty : (do let _ ← Reading.expect closing; pure [] : Reading (List α)).Resumes levels
      (CommaList closing form) (fun _ => True) fun _ => True := by
    refine ((Resumes.closing hclosing []).mono trivial (fun _ _ => trivial) fun _ => id).imp fun _ _ _ _ hfixed => ?_
    obtain ⟨hkind⟩ := hfixed
    exact ⟨[], .nil hkind⟩
  refine ⟨trivial, hempty.sample, fun c d failure _ room hfailed hmisses => ?_⟩
  rw [Grammar.commaList, kind_bind] at hfailed
  split at hfailed
  · rw [pure_bind] at hfailed
    exact hempty.resumes trivial room hfailed hmisses
  · obtain ⟨tokens, hreach, hcompletes⟩ :=
      (closed hx haccepts hform hfirst hclosing hends hcomma).resumes trivial room hfailed hmisses
    refine ⟨tokens, hreach, (hcompletes.imp fun _ _ _ _ hboth => ?_).mono (fun _ _ => trivial) fun _ => id⟩
    obtain ⟨hitems, ⟨hkind⟩⟩ := hboth
    exact ⟨_, .cons hitems hkind⟩

theorem bracketed {opening closing : TokenKind} (hopening : opening != .endOfInput)
    (hclosing : closing != .endOfInput) (hends : ends closing) (hcomma : closing != .comma) :
    (do let _ ← Reading.expect opening; Grammar.commaList closing x).Resumes levels
      (Bracketed opening closing form) (· = opening) fun _ => True := by
  have hlist := commaList hx haccepts hform hfirst hclosing hends hcomma
  refine (token hopening fun _ => hlist).imp fun _ _ _ _ hheaded => ?_
  obtain ⟨hopen, hlist⟩ := hheaded
  exact ⟨_, .intro hopen hlist⟩

end

end Resumes

end

end Reading

/-! ## Names -/

namespace Grammar

open Reading

variable {levels : Nat}

theorem resumes_identifier : identifier.Resumes levels Name (· = .identifier) fun _ => True := by
  refine ((Resumes.expectAs rfl _).last).imp fun _ _ _ _ hfixed => ?_
  obtain ⟨hkind⟩ := hfixed
  exact ⟨_, .intro hkind⟩

/-- A name and what stands behind it. -/
theorem resumes_nameThen {α β : Type} {f : Ident → Reading α} {form : Form β} {opens ends : TokenKind → Prop}
    (hf : ∀ name, (f name).Resumes levels form opens ends) :
    (identifier >>= f).Resumes levels (Headed .identifier form) (· = .identifier) ends := by
  have hboth := resumes_identifier.bind accepts_identifier name_endsBefore name_opens hf fun _ _ => trivial
  refine hboth.imp fun _ _ _ _ hform => ?_
  obtain ⟨⟨hname⟩, hrest⟩ := hform
  exact ⟨_, .intro hname hrest⟩

theorem resumes_parameters : parameters.Resumes levels Parameters (· = .openParen) fun _ => True :=
  .bracketed resumes_identifier accepts_identifier name_endsBefore name_opens rfl rfl trivial rfl

end Grammar

end WattFront
