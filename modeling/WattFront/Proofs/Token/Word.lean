import WattFront.Proofs.Token.Lexed

/-! # Words that are read back

A *word* is the kind and the value of a token. Each word has a text, and a text of words with spaces
between them is read as tokens of these kinds and values, provided that the words are names, numbers in
range, strings or fixed tokens.

* `Word.Spelled.element` — the text of a word is the element of its token, wherever nothing follows that
  could be taken for more of it;
* `Word.tokenize_spaced` — a text of words with spaces between them.
-/

namespace WattFront

structure Word where
  kind : TokenKind
  value : String
deriving DecidableEq, Repr

def Token.word (token : Token) : Word :=
  ⟨token.kind, token.value⟩

def TokenKind.word (kind : TokenKind) : Word :=
  ⟨kind, kind.lexeme⟩

/-- Whether a text is an identifier: a word that starts with no digit and is not reserved. -/
structure IsName (text : String) : Prop where
  nonempty : text.toList ≠ []
  all : ∀ c ∈ text.toList, isWordPart c = true
  start : ∀ c ∈ text.toList.head?, c.isDigit = false
  free : ∀ kind ∈ TokenKind.keywords, kind.lexeme ≠ text

instance (text : String) : Decidable (IsName text) :=
  decidable_of_iff (text.toList ≠ [] ∧ text.toList.all isWordPart = true
      ∧ text.toList.head?.all (fun c => !c.isDigit) = true ∧ ∀ kind ∈ TokenKind.keywords, kind.lexeme ≠ text)
    (by
      simp only [List.all_eq_true, Option.all_eq_true, Bool.not_eq_true']
      exact ⟨fun h => ⟨h.1, h.2.1, h.2.2.1, h.2.2.2⟩, fun h => ⟨h.nonempty, h.all, h.start, h.free⟩⟩)

namespace Word

def text (w : Word) : List Char :=
  if w.kind = .string then (Escape.literal w.value).toList else w.value.toList

/-- The words that are read as one token. -/
inductive Written : Word → Prop
  | keyword {kind} (h : kind ∈ TokenKind.keywords) : Written kind.word
  | mark {kind} (h : kind ∈ TokenKind.marks) : Written kind.word
  | name {text} (h : IsName text) : Written ⟨.identifier, text⟩
  | number {value : Nat} (h : value ≤ 2 ^ 63 - 1) : Written ⟨.number, toString value⟩
  | string {text} : Written ⟨.string, text⟩

/-- The words that are the spelling of one token. Unlike a word that is written, a number may start with
zeros. -/
inductive Spelled : Word → Prop
  | fixed {kind} (h : kind ∈ TokenKind.keywords ++ TokenKind.marks) : Spelled kind.word
  | name {text} (h : IsName text) : Spelled ⟨.identifier, text⟩
  | number {text} (hne : text.toList ≠ []) (hdigits : ∀ c ∈ text.toList, c.isDigit = true)
    (hrange : Numeral.toNat text.toList ≤ 2 ^ 63 - 1) : Spelled ⟨.number, text⟩
  | string {text} : Spelled ⟨.string, text⟩

/-- The characters that may stand behind the spelling of a word: blank space, and the slash of a comment,
unless the word is a slash itself. -/
def MayFollow (w : Word) (c : Char) : Prop :=
  isBlank c = true ∨ c = '/' ∧ w.kind ≠ .slash

def spaced : List Word → List Char
  | [] => []
  | [w] => w.text
  | w :: ws => w.text ++ ' ' :: spaced ws

end Word

/-! ## The element of a word -/

theorem Numeral.toNat_toDigits (n : Nat) : toNat (Nat.toDigits 10 n) = n := by
  rw [← foldl_eq_toNat]
  exact Nat.ofDigitChars_ten_toDigits

theorem stringBody_encode (value : List Char) : StringBody (Escape.encode value) value := by
  induction value with
  | nil => exact .nil
  | cons c cs ih =>
    have happend : Escape.encode (c :: cs) = Escape.encodeChar c ++ Escape.encode cs := by
      simp [Escape.encode]
    rw [happend]
    unfold Escape.encodeChar
    split
    case h_7 hquote hslash hline _ _ _ =>
      exact .plain hquote hslash hline ih
    all_goals exact .escape rfl ih

/-- A text at the front of two others reaches into the second only with that one's first character. -/
theorem prefix_of_append {text front rest : List Char} (h : text <+: front ++ rest)
    (hrest : ∀ c ∈ rest.head?, c ∉ text.drop front.length) : text <+: front := by
  by_cases hle : text.length ≤ front.length
  · exact List.prefix_of_prefix_length_le h (List.prefix_append front rest) hle
  · obtain ⟨tail, rfl⟩ :=
      List.prefix_of_prefix_length_le (List.prefix_append front rest) h (Nat.le_of_not_le hle)
    have htail := (List.prefix_append_right_inj front).1 h
    cases tail with
    | nil => exact absurd (by simp) hle
    | cons c tail =>
      obtain ⟨others, rfl⟩ := htail
      exact absurd (by simp) (hrest c rfl)

namespace Word

variable {w : Word} {ws : List Word} {rest : List Char}

theorem text_of_ne (h : w.kind ≠ .string) : w.text = w.value.toList :=
  if_neg h

theorem text_string (value : String) :
    text ⟨.string, value⟩ = '\x27' :: (Escape.encode value.toList ++ ['\x27']) := by
  simp [text, Escape.literal]

/-- A comment that starts with the last character of a mark starts with a slash that stands alone. -/
theorem slash_of_prefix {kind : TokenKind} (h : kind ∈ TokenKind.marks) {d : Char} (hd : d ≠ '=')
    (hstarts : ['/', d] <+: kind.lexeme.toList ++ rest) : kind = .slash ∧ rest.head? = some d := by
  have hall : ∀ kind ∈ TokenKind.marks, kind.lexeme.toList.head? = some '/' →
      kind = .slash ∨ kind = .slashEquals := by decide
  have hhead : kind.lexeme.toList.head? = some '/' := by
    obtain ⟨c, tail, htext⟩ := List.exists_cons_of_ne_nil (TokenKind.lexeme_ne_nil_of_mem_marks h)
    rw [htext, List.cons_append] at hstarts
    rw [htext, List.head?_cons, (List.cons_prefix_cons.1 hstarts).1]
  rcases hall kind h hhead with rfl | rfl
  · obtain ⟨others, hothers⟩ := (List.cons_prefix_cons.1 hstarts).2
    exact ⟨rfl, (congrArg List.head? hothers).symm⟩
  · exact absurd (List.cons_prefix_cons.1 (List.cons_prefix_cons.1 hstarts).2).1 hd

theorem element_of_mark {kind : TokenKind} (h : kind ∈ TokenKind.marks)
    (hrest : ∀ c ∈ rest.head?, MayFollow kind.word c) :
    Element kind.lexeme.toList rest (some (kind, kind.lexeme)) := by
  have hinside : ∀ kind ∈ TokenKind.marks,
      (kind.lexeme.toList.drop 1).all (fun c => !isBlank c && c != '/') = true := by decide
  have hpositive : 1 ≤ kind.lexeme.toList.length :=
    List.length_pos_iff.2 (TokenKind.lexeme_ne_nil_of_mem_marks h)
  refine .mark h ?_ ?_ ?_
  · intro other hother hstarts
    refine (prefix_of_append hstarts ?_).length_le
    intro c hc member
    have hinner := List.all_eq_true.1 (hinside other hother) c (List.drop_subset_drop_left _ hpositive member)
    obtain ⟨hblank, hslash⟩ : isBlank c = false ∧ c ≠ '/' := by simpa using hinner
    rcases hrest c hc with hspace | ⟨hcomment, -⟩
    · rw [hblank] at hspace
      cases hspace
    · exact hslash hcomment
  all_goals
    intro hstarts
    obtain ⟨rfl, hhead⟩ := slash_of_prefix h (by decide) hstarts
    rcases hrest _ hhead with hspace | ⟨-, hother⟩
    · exact absurd hspace (by decide)
    · exact hother rfl

theorem element_of_keyword {kind : TokenKind} (h : kind ∈ TokenKind.keywords)
    (hrest : ∀ c ∈ rest.head?, isWordPart c = false) :
    Element kind.lexeme.toList rest (some (kind, kind.lexeme)) := by
  have hall : ∀ kind ∈ TokenKind.keywords, kind.lexeme.toList ≠ []
      ∧ kind.lexeme.toList.all isWordPart = true
      ∧ kind.lexeme.toList.head?.all (fun c => !c.isDigit) = true := by decide
  obtain ⟨hne, hparts, hstart⟩ := hall kind h
  simp only [List.all_eq_true, Option.all_eq_true, Bool.not_eq_true'] at hparts hstart
  have hvalue : String.ofList kind.lexeme.toList = kind.lexeme := String.ofList_toList
  have helement : Element kind.lexeme.toList rest (some (kind, String.ofList kind.lexeme.toList)) :=
    .word ⟨hne, hparts, hrest⟩ hstart (.keyword h hvalue.symm)
  rwa [hvalue] at helement

theorem element_of_name {name : String} (h : IsName name)
    (hrest : ∀ c ∈ rest.head?, isWordPart c = false) :
    Element name.toList rest (some (.identifier, name)) := by
  have hvalue : String.ofList name.toList = name := String.ofList_toList
  have helement : Element name.toList rest (some (.identifier, String.ofList name.toList)) := by
    refine .word ⟨h.nonempty, h.all, hrest⟩ h.start (.identifier ?_)
    rw [hvalue]
    exact h.free
  rwa [hvalue] at helement

theorem element_of_number {digits : String} (hne : digits.toList ≠ [])
    (hdigits : ∀ c ∈ digits.toList, c.isDigit = true) (hrange : Numeral.toNat digits.toList ≤ 2 ^ 63 - 1)
    (hrest : ∀ c ∈ rest.head?, c.isDigit = false) :
    Element digits.toList rest (some (.number, digits)) := by
  have hvalue : String.ofList digits.toList = digits := String.ofList_toList
  have helement : Element digits.toList rest (some (.number, String.ofList digits.toList)) :=
    .number ⟨hne, hdigits, hrest⟩ hrange
  rwa [hvalue] at helement

theorem Written.spelled (h : w.Written) : w.Spelled := by
  cases h with
  | keyword h => exact .fixed (List.mem_append_left _ h)
  | mark h => exact .fixed (List.mem_append_right _ h)
  | name h => exact .name h
  | @number value h =>
    have hdigits : (toString value).toList = Nat.toDigits 10 value := by
      rw [Nat.toString_eq_ofList_toDigits, String.toList_ofList]
    refine .number ?_ ?_ ?_
    · rw [hdigits]
      exact Nat.toDigits_ne_nil
    · rw [hdigits]
      exact fun c member => Nat.isDigit_of_mem_toDigits (by decide) (by decide) member
    · rwa [hdigits, Numeral.toNat_toDigits]
  | string => exact .string

/-- In front of the end, of blank space or of a comment, the text of a word is the element of its token. -/
theorem Spelled.element (h : w.Spelled) (hrest : ∀ c ∈ rest.head?, w.MayFollow c) :
    Element w.text rest (some (w.kind, w.value)) := by
  have hpart : ∀ c ∈ rest.head?, isWordPart c = false := by
    intro c member
    rw [← Bool.not_eq_true]
    intro hpart
    rcases hrest c member with hblank | ⟨rfl, -⟩
    · rw [isBlank_of_isWordPart hpart] at hblank
      cases hblank
    · exact absurd hpart (by decide)
  have hfixed : ∀ kind ∈ TokenKind.keywords ++ TokenKind.marks, kind ≠ .string := by decide
  cases h with
  | @fixed kind h =>
    rw [text_of_ne (hfixed kind h)]
    rcases List.mem_append.1 h with h | h
    · exact element_of_keyword h hpart
    · exact element_of_mark h hrest
  | name h => exact element_of_name h hpart
  | @number digits hne hdigits hrange =>
    have htext : text ⟨.number, digits⟩ = digits.toList :=
      text_of_ne (show TokenKind.number ≠ .string by decide)
    rw [htext]
    refine element_of_number hne hdigits hrange ?_
    intro c member
    rw [← Bool.not_eq_true]
    intro hdigit
    have hnone := hpart c member
    rw [isWordPart_of_isDigit hdigit] at hnone
    cases hnone
  | @string value =>
    have hvalue : String.ofList value.toList = value := String.ofList_toList
    have helement : Element ('\x27' :: (Escape.encode value.toList ++ ['\x27'])) rest
        (some (.string, String.ofList value.toList)) := .string (stringBody_encode _)
    rw [text_string]
    rwa [hvalue] at helement

/-- In front of a space or of the end, the text of a word is the element of its token. -/
theorem Written.element (h : w.Written) (hrest : ∀ c ∈ rest.head?, c = ' ') :
    Element w.text rest (some (w.kind, w.value)) :=
  h.spelled.element fun c member => .inl (hrest c member ▸ by decide)

/-- The text of a word does not start with blank space, or the blank space would be its element. -/
theorem Spelled.head (h : w.Spelled) : ∃ c tail, w.text = c :: tail ∧ isBlank c = false := by
  have helement : Element w.text [] (some (w.kind, w.value)) := h.element (by simp)
  obtain ⟨c, tail, htext⟩ := List.exists_cons_of_ne_nil helement.nonempty
  refine ⟨c, tail, htext, ?_⟩
  rw [htext] at helement
  have hfirst := Lexeme.first_of_element helement rfl
  by_contra hblank
  rw [Lexeme.first, if_pos (by simpa using hblank)] at hfirst
  cases hfirst

theorem spaced_cons (w w' : Word) (ws : List Word) :
    spaced (w :: w' :: ws) = w.text ++ ' ' :: spaced (w' :: ws) := rfl

theorem head?_spaced (h : w.Written) : ∃ c rest, spaced (w :: ws) = c :: rest ∧ isBlank c = false := by
  obtain ⟨c, tail, htext, hblank⟩ := h.spelled.head
  cases ws with
  | nil => exact ⟨c, tail, htext, hblank⟩
  | cons w' ws => exact ⟨c, tail ++ ' ' :: spaced (w' :: ws), by rw [spaced_cons, htext]; rfl, hblank⟩

/-- A text of words is read as one token for each word, with the end of input behind them. -/
theorem lexed_spaced (file : String) (offset : Nat) (h : ∀ w ∈ ws, w.Written) :
    ∃ tokens last, Lexed file offset (spaced ws) (.ok (tokens ++ [last]))
      ∧ tokens.map Token.word = ws ∧ last.kind = .endOfInput := by
  induction ws generalizing offset with
  | nil => exact ⟨[], _, .done, rfl, rfl⟩
  | cons w ws ih =>
    obtain ⟨hw, hws⟩ := List.forall_mem_cons.1 h
    cases ws with
    | nil =>
      have hover : Lexed file (offset + byteLength w.text) [] _ := .done
      have hlexed := Lexed.token (hw.element (by simp)) hover
      rw [List.append_nil] at hlexed
      exact ⟨[_], _, hlexed, rfl, rfl⟩
    | cons w' ws =>
      have hspace : ∀ c ∈ (' ' :: spaced (w' :: ws)).head?, c = ' ' := by simp
      have hblank : Element [' '] (spaced (w' :: ws)) none := by
        obtain ⟨c, rest, hspaced, hc⟩ := head?_spaced (List.forall_mem_cons.1 hws).1
        refine .blank ⟨List.cons_ne_nil _ _, List.forall_mem_singleton.2 (by decide), ?_⟩
        intro d member
        rw [hspaced] at member
        cases member
        exact hc
      obtain ⟨tokens, last, hlexed, htokens, hlast⟩ :=
        ih (offset + byteLength w.text + byteLength [' ']) hws
      exact ⟨_ :: tokens, last, .token (hw.element hspace) (.skipped hblank hlexed),
        by rw [List.map_cons, htokens]; rfl, hlast⟩

/-- A text of words is read as tokens for the words. -/
theorem tokenize_spaced (file : String) (h : ∀ w ∈ ws, w.Written) :
    ∃ tokens last, tokenize (spaced ws) file = .ok (tokens ++ [last])
      ∧ tokens.map Token.word = ws ∧ last.kind = .endOfInput := by
  obtain ⟨tokens, last, hlexed, htokens, hlast⟩ := lexed_spaced file 0 h
  exact ⟨tokens, last, hlexed.tokenize_eq, htokens, hlast⟩

end Word

/-! ## The words of tokens -/

/-- The token of an element has a spelling: the text that it was read from, or an encoding of a string. -/
theorem Element.spelled {text rest : List Char} {kind : TokenKind} {value : String}
    (h : Element text rest (some (kind, value))) : Word.Spelled ⟨kind, value⟩ := by
  cases h with
  | word hrun hstart hkind =>
    cases hkind with
    | keyword hkind hword =>
      rw [← hword]
      exact .fixed (List.mem_append_left _ hkind)
    | identifier hword =>
      rw [← String.toList_ofList (l := text)] at hrun hstart
      exact .name ⟨hrun.nonempty, hrun.all, hstart, hword⟩
  | number hrun hrange =>
    rw [← String.toList_ofList (l := text)] at hrun hrange
    exact .number hrun.nonempty hrun.all hrange
  | string => exact .string
  | mark hkind => exact .fixed (List.mem_append_right _ hkind)

theorem Lexed.spelled {file : String} {offset : Nat} {text : List Char} {tokens : List Token}
    (h : Lexed file offset text (.ok tokens)) :
    ∀ token ∈ tokens, token.kind = .endOfInput ∨ token.word.Spelled := by
  generalize hresult : Except.ok tokens = result at h
  induction h generalizing tokens with
  | done =>
    cases hresult
    exact List.forall_mem_singleton.2 (.inl rfl)
  | skipped _ _ ih => exact ih hresult
  | @token _ _ _ _ _ outcome helement _ ih =>
    cases outcome with
    | error => cases hresult
    | ok others =>
      cases hresult
      exact List.forall_mem_cons.2 ⟨.inr helement.spelled, ih rfl⟩
  | failed => cases hresult

theorem Word.Spelled.inside {w : Word} (h : w.Spelled) : w.kind ≠ .endOfInput := by
  cases h with
  | fixed h =>
    have hall : ∀ kind ∈ TokenKind.keywords ++ TokenKind.marks, kind ≠ .endOfInput := by decide
    exact hall _ h
  | name | number | string => exact TokenKind.noConfusion

/-- The tokens of a text are words that have a spelling, but for the end of input. -/
theorem spelled_of_tokenize {source : List Char} {file : String} {tokens : List Token}
    (h : tokenize source file = .ok tokens) :
    ∀ token ∈ tokens, token.kind = .endOfInput ∨ token.word.Spelled := by
  obtain ⟨outcome, houtcome⟩ := exists_lexed file 0 source
  rw [houtcome.tokenize_eq] at h
  exact (h ▸ houtcome).spelled

end WattFront
