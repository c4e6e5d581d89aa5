import Mathlib.Data.List.Chain
import WattFront.Proofs.Grammar.Spelling
import WattFront.Proofs.Tree.Canonical

/-! # Forms that recover a value from its words

A form *recovers* a value from words if tokens of these words have the form, for a value that is the same
up to what a reading adds to it: its spans. Whether they do may depend on the word that follows.

* `Form.Recovers` — the property;
* `recovers_many`, `recovers_bracketed`, `recovers_clause` — lists and clauses from their items.
-/

namespace WattFront

/-- Tokens of some words have a form, for a value that is the same up to `bare`, in front of every word
that may follow. -/
def Form.Recovers {α β : Type} (form : Form α) (bare : α → β) (ws : List Word) (a : α)
    (follow : Word → Prop) : Prop :=
  ∀ tokens next, tokens.map Token.word = ws → follow next.word → ∃ b, form tokens next b ∧ bare b = bare a

theorem Form.Recovers.imp {α β : Type} {form : Form α} {bare : α → β} {ws : List Word} {a : α}
    {follow follow' : Word → Prop} (h : form.Recovers bare ws a follow) (himp : ∀ w, follow' w → follow w) :
    form.Recovers bare ws a follow' :=
  fun tokens next htokens hnext => h tokens next htokens (himp _ hnext)

/-- Words of which the first is such that something may stand in front of it. -/
def Word.Start (ws : List Word) (follow : Word → Prop) : Prop :=
  ∃ w rest, ws = w :: rest ∧ follow w

namespace Spelling

open Word

variable {α β : Type} {item : Form α} {bare : α → β} {words : α → List Word} {follow : Word → Prop}
  {tokens : List Token} {next : Token} {w : Word} {ws us vs : List Word} {as : List α}

/-! ## Tokens and their words -/

theorem exists_cons_of_words (h : tokens.map Token.word = w :: ws) :
    ∃ first others, tokens = first :: others ∧ first.kind = w.kind ∧ first.value = w.value
      ∧ others.map Token.word = ws := by
  obtain ⟨first, others, rfl, hw, hws⟩ := List.map_eq_cons_iff.1 h
  subst hw
  exact ⟨first, others, rfl, rfl, rfl, hws⟩

theorem exists_append_of_words (h : tokens.map Token.word = us ++ vs) :
    ∃ front back, tokens = front ++ back ∧ front.map Token.word = us ∧ back.map Token.word = vs :=
  List.map_eq_append_iff.1 h

theorem kind_headD_of_words (h : tokens.map Token.word = w :: ws) :
    (tokens.headD next).kind = w.kind := by
  obtain ⟨first, others, rfl, hfirst, _⟩ := exists_cons_of_words h
  exact hfirst

theorem eq_nil_of_words (h : tokens.map Token.word = []) : tokens = [] :=
  List.map_eq_nil_iff.1 h

theorem word_headD (tokens : List Token) (next : Token) :
    (tokens.headD next).word = (tokens.map Token.word).headD next.word := by
  cases tokens <;> rfl

/-- What holds of the next word and of the first of some words holds of the first of both. -/
theorem follow_headD (follow : Word → Prop) (h : tokens.map Token.word = ws) (hws : ∀ w ∈ ws.head?, follow w)
    (hnext : follow next.word) : follow (tokens.headD next).word := by
  rw [word_headD, h]
  cases ws with
  | nil => exact hnext
  | cons w ws => exact hws w rfl

/-! ## Lists and clauses -/

/-- What may stand behind an item may depend on the item. Each item but the last one is followed by the
first word of the next one. -/
theorem recovers_many_of_chain {goesOn : TokenKind → Bool} {follows : α → Word → Prop}
    (hitem : ∀ a ∈ as, item.Recovers bare (words a) a (follows a))
    (hchain : as.IsChain fun a a' => Word.Start (words a') (follows a)) :
    (Many goesOn item).Recovers (List.map bare) (as.flatMap words) as
      fun w => (∀ a ∈ as, follows a w) ∧ goesOn w.kind = false := by
  intro tokens next htokens hnext
  induction as generalizing tokens with
  | nil =>
    rw [eq_nil_of_words htokens]
    exact ⟨[], .nil hnext.2, rfl⟩
  | cons a as ih =>
    obtain ⟨ha, has⟩ := List.forall_mem_cons.1 hitem
    obtain ⟨hlast, hlasts⟩ := List.forall_mem_cons.1 hnext.1
    rw [List.flatMap_cons] at htokens
    obtain ⟨front, back, rfl, hfront, hback⟩ := exists_append_of_words htokens
    -- Behind `a` stands the first word of the next item, or the token behind the whole list.
    have hfollow : follows a (back.headD next).word := by
      refine follow_headD (follows a) hback ?_ hlast
      cases as with
      | nil => simp
      | cons a' as =>
        obtain ⟨w, rest, hwords, hw⟩ := (List.isChain_cons_cons.1 hchain).1
        simp [hwords, hw]
    obtain ⟨b, hb, hbare⟩ := ha front _ hfront hfollow
    obtain ⟨bs, hbs, hbares⟩ := ih has hchain.tail back hback ⟨hlasts, hnext.2⟩
    exact ⟨b :: bs, .cons hb hbs, by rw [List.map_cons, List.map_cons, hbare, hbares]⟩

theorem recovers_many {goesOn : TokenKind → Bool}
    (hitem : ∀ a ∈ as, item.Recovers bare (words a) a follow)
    (hstart : ∀ a ∈ as, Word.Start (words a) follow) :
    (Many goesOn item).Recovers (List.map bare) (as.flatMap words) as
      fun w => follow w ∧ goesOn w.kind = false := by
  have hchain : as.IsChain fun _ a' => Word.Start (words a') follow :=
    (List.pairwise_of_forall_mem_list fun _ _ a' member => hstart a' member).isChain
  exact (recovers_many_of_chain hitem hchain).imp fun w hw => ⟨fun _ _ => hw.1, hw.2⟩

theorem recovers_separated (hitem : ∀ a ∈ as, item.Recovers bare (words a) a follow)
    (hcomma : follow TokenKind.comma.word) (hne : as ≠ []) :
    (Separated item).Recovers (List.map bare) (separated (as.map words)) as
      fun w => follow w ∧ w.kind ≠ .comma := by
  intro tokens next htokens hnext
  induction as generalizing tokens with
  | nil => exact absurd rfl hne
  | cons a as ih =>
    obtain ⟨ha, has⟩ := List.forall_mem_cons.1 hitem
    cases as with
    | nil =>
      obtain ⟨b, hb, hbare⟩ := ha tokens next htokens hnext.1
      exact ⟨[b], .one hb hnext.2, by rw [List.map_singleton, List.map_singleton, hbare]⟩
    | cons a' as =>
      rw [List.map_cons, List.map_cons, separated_cons] at htokens
      obtain ⟨front, back, rfl, hfront, hback⟩ := exists_append_of_words htokens
      obtain ⟨comma, others, rfl, hkind, hvalue, hothers⟩ := exists_cons_of_words hback
      have hfollow : follow comma.word := by
        rw [Token.word, hkind, hvalue]
        exact hcomma
      obtain ⟨b, hb, hbare⟩ := ha front comma hfront hfollow
      obtain ⟨bs, hbs, hbares⟩ := ih has (List.cons_ne_nil _ _) others hothers
      exact ⟨b :: bs, .more hb hkind hbs, by rw [List.map_cons, List.map_cons, hbare, hbares]⟩

theorem recovers_bracketed {opening closing : TokenKind}
    (hitem : ∀ a ∈ as, item.Recovers bare (words a) a follow) (hcomma : follow TokenKind.comma.word)
    (hclose : follow closing.word) (hclosing : closing ≠ .comma) :
    (Bracketed opening closing item).Recovers (List.map bare)
      (bracketed opening closing (as.map words)) as fun _ => True := by
  intro tokens next htokens _
  obtain ⟨first, rest, rfl, hfirst, _, hrest⟩ := exists_cons_of_words htokens
  obtain ⟨front, back, rfl, hfront, hback⟩ := exists_append_of_words hrest
  obtain ⟨last, others, rfl, hlast, hvalue, hothers⟩ := exists_cons_of_words hback
  obtain rfl := eq_nil_of_words hothers
  by_cases has : as = []
  · subst has
    rw [eq_nil_of_words hfront]
    exact ⟨[], .intro hfirst (.nil hlast), rfl⟩
  · have hword : last.word = closing.word := by rw [Token.word, hlast, hvalue, TokenKind.word]
    obtain ⟨bs, hbs, hbares⟩ := recovers_separated hitem hcomma has front last hfront
      (by rw [hword]; exact ⟨hclose, hclosing⟩)
    exact ⟨bs, .intro hfirst (.cons hbs hlast), hbares⟩

theorem recovers_clause {opening : TokenKind} {a? : Option α}
    (hitem : ∀ a ∈ a?, item.Recovers bare (words a) a follow) :
    (Clause opening item).Recovers (Option.map bare) (a?.elim [] words) a?
      fun w => follow w ∧ w.kind ≠ opening := by
  intro tokens next htokens hnext
  cases a? with
  | none =>
    rw [eq_nil_of_words htokens]
    exact ⟨none, .none hnext.2, rfl⟩
  | some a =>
    obtain ⟨b, hb, hbare⟩ := hitem a rfl tokens next htokens hnext.1
    exact ⟨some b, .some hb, by rw [Option.map_some, Option.map_some, hbare]⟩

end Spelling

end WattFront
