import WattFront.Proofs.Grammar.Passing
import WattFront.Proofs.Token.Layout

/-! # Where tokens stand in a text

Each token of a text has the span of the element that it was made of, and the tokens stand one behind the
other. What a token says can therefore be read off the text under its span.

* `Span.Cuts` — the text under a span;
* `Token.StandsIn`, `Lexed.stands` — the tokens of a text stand in it;
* `InOrder` — tokens that are not empty and stand one behind the other.
-/

namespace WattFront

namespace Span

def before (s t : Span) : Prop :=
  s.stop.offset.toNat ≤ t.start.offset.toNat

def within (s t : Span) : Prop :=
  t.start.offset.toNat ≤ s.start.offset.toNat ∧ s.stop.offset.toNat ≤ t.stop.offset.toNat

def filled (s : Span) : Prop :=
  s.start.offset.toNat < s.stop.offset.toNat

theorem within.filled {s t : Span} (h : s.within t) (hs : s.filled) : t.filled :=
  Nat.lt_of_le_of_lt h.1 (Nat.lt_of_lt_of_le hs h.2)

/-- The part of a source from the start of a span to its stop is the given text. -/
def Cuts (s : Span) (source text : List Char) : Prop :=
  ∃ front back, source = front ++ (text ++ back) ∧ s.start.offset.toNat = byteLength front
    ∧ s.stop.offset.toNat = byteLength (front ++ text)

end Span

/-- A token stands in a source if an element of the source spells it and has its span. -/
def Token.StandsIn (source : List Char) (file : String) (token : Token) : Prop :=
  ∃ front text back, source = front ++ (text ++ back) ∧ Element text back (some (token.kind, token.value))
    ∧ token.span = ⟨.atByte (byteLength front) file, .atByte (byteLength (front ++ text)) file⟩

/-- Tokens that are not empty, one behind the other. -/
structure InOrder (tokens : List Token) : Prop where
  filled : ∀ token ∈ tokens, token.span.filled
  apart : tokens.Pairwise fun token other => token.span.before other.span

variable {source text rest : List Char} {file : String} {offset : Nat} {tokens core : List Token}

/-! ## The text of an element -/

theorem byteLength_pos (h : text ≠ []) : 0 < byteLength text := by
  obtain ⟨c, cs, rfl⟩ := List.exists_cons_of_ne_nil h
  have hpos := c.utf8Size_pos
  rw [byteLength_cons]
  omega

/-- The text of a number is a run of digits, and that of a string stands between quotes. -/
theorem Element.text_eq {kind : TokenKind} {value : String} (h : Element text rest (some (kind, value))) :
    if kind = .string then ∃ body, text = '\x27' :: (body ++ ['\x27']) ∧ StringBody body value.toList
    else text = value.toList ∧ (kind = .number → text ≠ [] ∧ (∀ c ∈ text, c.isDigit = true)
      ∧ Numeral.toNat text ≤ 2 ^ 63 - 1) := by
  have hfixed : ∀ kind ∈ TokenKind.keywords ++ TokenKind.marks, kind ≠ .string ∧ kind ≠ .number := by decide
  cases h with
  | word hrun hstart hkind =>
    have hother : kind ≠ .string ∧ kind ≠ .number := by
      cases hkind with
      | keyword hkind => exact hfixed _ (List.mem_append_left _ hkind)
      | identifier => exact ⟨nofun, nofun⟩
    rw [if_neg hother.1]
    exact ⟨String.toList_ofList.symm, fun hnumber => absurd hnumber hother.2⟩
  | number hrun hrange =>
    rw [if_neg nofun]
    exact ⟨String.toList_ofList.symm, fun _ => ⟨hrun.nonempty, hrun.all, hrange⟩⟩
  | @string body _ value hbody =>
    rw [if_pos rfl]
    exact ⟨body, rfl, by rwa [String.toList_ofList]⟩
  | mark hkind =>
    have hother := hfixed _ (List.mem_append_right _ hkind)
    rw [if_neg hother.1]
    exact ⟨rfl, fun hnumber => absurd hnumber hother.2⟩

/-- A keyword is spelled by its lexeme. -/
theorem Element.value_of_keyword {kind : TokenKind} {value : String}
    (h : Element text rest (some (kind, value))) (hkind : kind ∈ TokenKind.keywords) : value = kind.lexeme := by
  have hother : ∀ kind ∈ TokenKind.keywords, kind ≠ .identifier ∧ kind ≠ .number ∧ kind ≠ .string := by decide
  obtain ⟨hname, hnumber, hstring⟩ := hother kind hkind
  cases h with
  | word _ _ hword =>
    cases hword with
    | keyword _ hlexeme => exact hlexeme.symm
    | identifier => exact absurd rfl hname
  | number => exact absurd rfl hnumber
  | string => exact absurd rfl hstring
  | mark => rfl

/-! ## Tokens in a text -/

namespace Token.StandsIn

variable {token : Token}

theorem inside (h : token.StandsIn source file) : token.kind ≠ .endOfInput := by
  obtain ⟨front, text, back, -, helement, -⟩ := h
  exact helement.spelled.inside

theorem file_eq (h : token.StandsIn source file) :
    token.span.start.file = file ∧ token.span.stop.file = file := by
  obtain ⟨front, text, back, -, -, hspan⟩ := h
  rw [hspan]
  exact ⟨rfl, rfl⟩

/-- In a text whose offsets are not cut down, an element that spells a token stands under its span. -/
theorem exists_cuts (h : token.StandsIn source file) (hsize : byteLength source < 2 ^ 32) :
    ∃ text back, Element text back (some (token.kind, token.value)) ∧ token.span.Cuts source text := by
  obtain ⟨front, text, back, rfl, helement, hspan⟩ := h
  simp only [byteLength_append] at hsize
  refine ⟨text, back, helement, front, back, rfl, ?_, ?_⟩
  · rw [hspan]
    exact Position.toNat_atByte (by omega) file
  · rw [hspan]
    exact Position.toNat_atByte (by simp only [byteLength_append]; omega) file

theorem filled (h : token.StandsIn source file) (hsize : byteLength source < 2 ^ 32) :
    token.span.filled := by
  obtain ⟨text, back, helement, front, -, -, hstart, hstop⟩ := h.exists_cuts hsize
  have hpos := byteLength_pos helement.nonempty
  rw [Span.filled, hstart, hstop, byteLength_append]
  omega

end Token.StandsIn

/-- The tokens of a text, behind other text of a source, stand in the source, one behind the other, with the
end of input behind them. -/
theorem Lexed.stands {front : List Char} (h : Lexed file offset text (.ok tokens))
    (hoffset : offset = byteLength front) (hsource : source = front ++ text) (hsize : byteLength source < 2 ^ 32) :
    ∃ words, tokens = words ++ [.endOfInput (.empty (.atByte (byteLength source) file))]
      ∧ (∀ token ∈ words, token.StandsIn source file ∧ offset ≤ token.span.start.offset.toNat)
      ∧ words.Pairwise fun token other => token.span.before other.span := by
  generalize hresult : Except.ok tokens = outcome at h
  induction h generalizing tokens front with
  | done =>
    cases hresult
    refine ⟨[], ?_, List.forall_mem_nil _, .nil⟩
    rw [hsource, hoffset, List.append_nil, List.nil_append]
  | @skipped offset text rest outcome _ _ ih =>
    have hfront : offset + byteLength text = byteLength (front ++ text) := by rw [hoffset, byteLength_append]
    have hbehind : source = front ++ text ++ rest := by rw [hsource, List.append_assoc]
    obtain ⟨words, htokens, hstands, hapart⟩ := ih hfront hbehind hresult
    refine ⟨words, htokens, fun token member => ⟨(hstands token member).1, ?_⟩, hapart⟩
    exact Nat.le_trans (Nat.le_add_right _ _) (hstands token member).2
  | @token offset text rest kind value outcome helement _ ih =>
    cases outcome with
    | error => cases hresult
    | ok others =>
      cases hresult
      have hfront : offset + byteLength text = byteLength (front ++ text) := by rw [hoffset, byteLength_append]
      have hbehind : source = front ++ text ++ rest := by rw [hsource, List.append_assoc]
      obtain ⟨words, rfl, hstands, hapart⟩ := ih hfront hbehind rfl
      have hbound : offset + byteLength text < 2 ^ 32 := by
        rw [hsource, byteLength_append, byteLength_append] at hsize
        omega
      refine ⟨_ :: words, rfl, List.forall_mem_cons.2 ⟨⟨?_, ?_⟩, fun token member => ?_⟩, .cons ?_ hapart⟩
      · exact ⟨front, text, rest, hsource, helement, by rw [hoffset, byteLength_append]⟩
      · exact (Position.toNat_atByte (by omega) file).ge
      · exact ⟨(hstands token member).1, Nat.le_trans (Nat.le_add_right _ _) (hstands token member).2⟩
      · intro other member
        rw [Span.before, Position.toNat_atByte hbound]
        exact (hstands other member).2
  | failed => cases hresult

/-- The tokens of a text stand in it in order, with the end of input behind them. -/
theorem stands_of_tokenize (h : tokenize source file = .ok tokens) (hsize : byteLength source < 2 ^ 32) :
    ∃ words, tokens = words ++ [.endOfInput (.empty (.atByte (byteLength source) file))]
      ∧ (∀ token ∈ words, token.StandsIn source file) ∧ InOrder words := by
  have hlexed : Lexed file (byteLength []) source (.ok tokens) := lexed_of_tokenize h
  obtain ⟨words, htokens, hstands, hapart⟩ := hlexed.stands rfl (List.nil_append _).symm hsize
  exact ⟨words, htokens, fun token member => (hstands token member).1,
    fun token member => (hstands token member).1.filled hsize, hapart⟩

/-! ## Tokens in order -/

namespace InOrder

theorem sublist (h : InOrder tokens) (hsub : List.Sublist core tokens) : InOrder core :=
  ⟨fun token member => h.filled token (hsub.subset member), h.apart.sublist hsub⟩

/-- No token ends behind the last one. -/
theorem stop_le_last {first : Token} {others : List Token} (h : InOrder (first :: others)) :
    ∀ token ∈ first :: others,
      token.span.stop.offset.toNat ≤ (others.getLastD first).span.stop.offset.toNat := by
  induction others generalizing first with
  | nil =>
    intro token member
    rw [List.mem_singleton.1 member]
    exact Nat.le_refl _
  | cons second others ih =>
    have hrest : InOrder (second :: others) := h.sublist (List.sublist_cons_self _ _)
    have hlast := ih hrest second List.mem_cons_self
    have hsecond : second.span.filled := hrest.filled second List.mem_cons_self
    have hfirst : first.span.before second.span := List.rel_of_pairwise_cons h.apart List.mem_cons_self
    rw [Span.filled] at hsecond
    rw [Span.before] at hfirst
    rw [List.getLastD_cons]
    intro token member
    rcases List.mem_cons.1 member with rfl | member
    · omega
    · exact ih hrest token member

/-- The first and the last token of some tokens are around all of them. -/
theorem cover (h : InOrder tokens) (hne : tokens ≠ []) :
    ∃ first ∈ tokens, ∃ last ∈ tokens, Span.cover tokens = ⟨first.span.start, last.span.stop⟩
      ∧ ∀ token ∈ tokens, token.span.within (.cover tokens) := by
  obtain ⟨first, others, rfl⟩ := List.exists_cons_of_ne_nil hne
  have hlast : others.getLastD first ∈ first :: others := by
    rw [← List.getLast_eq_getLastD (List.cons_ne_nil _ _)]
    exact List.getLast_mem _
  refine ⟨first, List.mem_cons_self, _, hlast, rfl, fun token member => ⟨?_, h.stop_le_last token member⟩⟩
  rcases List.mem_cons.1 member with rfl | member
  · exact Nat.le_refl _
  · have hfirst : first.span.filled := h.filled first List.mem_cons_self
    have hbefore : first.span.before token.span := List.rel_of_pairwise_cons h.apart member
    rw [Span.filled] at hfirst
    rw [Span.before] at hbefore
    rw [Span.cover_cons]
    show first.span.start.offset.toNat ≤ token.span.start.offset.toNat
    omega

end InOrder

end WattFront
