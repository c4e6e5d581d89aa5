import Mathlib.Data.List.Infix
import Mathlib.Data.List.TakeWhile
import Mathlib.Data.Nat.Digits.Defs
import WattFront.Token.Lexeme

/-! # The elements of a text

What may stand at the front of a text, without a word on how it is found: a run that goes on as long as
it can, a comment up to its end, a string literal up to its closing quote, or the longest mark.
`Element text rest token?` says that `text` is such an element in front of `rest`, and which token it
spells. `first_eq_ok_iff` ties it to the first lexeme of a text, and `first_eq_error_iff` says what is
wrong where no element stands.
-/

namespace WattFront

def Numeral.toNat (digits : List Char) : Nat :=
  Nat.ofDigits 10 (digits.reverse.map fun d => d.toNat - '0'.toNat)

namespace TokenKind

def marks : List TokenKind :=
  pairs ++ signs

/-- A word is a keyword if it is reserved, and an identifier otherwise. -/
inductive IsOfWord (word : String) : TokenKind → Prop
  | keyword {kind} (hkind : kind ∈ keywords) (hword : kind.lexeme = word) : IsOfWord word kind
  | identifier (hword : ∀ kind ∈ keywords, kind.lexeme ≠ word) : IsOfWord word .identifier

end TokenKind

/-- A run of characters with a property goes on as long as it can. -/
structure MaximalRun (p : Char → Bool) (run rest : List Char) : Prop where
  nonempty : run ≠ []
  all : ∀ c ∈ run, p c = true
  maximal : ∀ c ∈ rest.head?, p c = false

/-- What stands between the quotes of a string literal, and what it decodes to. A backslash takes the next
character with it, and neither of the two is a line feed. -/
inductive StringBody : List Char → List Char → Prop
  | nil : StringBody [] []
  | plain {c cs value} (hquote : c ≠ '\x27') (hslash : c ≠ '\\') (hline : c ≠ '\n')
    (h : StringBody cs value) : StringBody (c :: cs) (c :: value)
  | escape {c d cs value} (hmeaning : Escape.meaning? c = some d) (h : StringBody cs value) :
    StringBody ('\\' :: c :: cs) (d :: value)
  | kept {c cs value} (hline : c ≠ '\n') (hmeaning : Escape.meaning? c = none)
    (h : StringBody cs value) : StringBody ('\\' :: c :: cs) ('\\' :: c :: value)

/-- The elements at the front of a text, each with the text behind it and the token that it spells. -/
inductive Element : List Char → List Char → Option (TokenKind × String) → Prop
  | blank {text rest} (hrun : MaximalRun isBlank text rest) : Element text rest none
  | lineComment {body rest} (hbody : '\n' ∉ body) (hrest : ∀ c ∈ rest.head?, c = '\n') :
    Element ('/' :: '/' :: body) rest none
  | blockComment {body rest} (hfirst : ¬ ['*', '/'] <:+: body ++ ['*']) :
    Element ('/' :: '*' :: (body ++ ['*', '/'])) rest none
  | word {text rest kind} (hrun : MaximalRun isWordPart text rest)
    (hstart : ∀ c ∈ text.head?, c.isDigit = false) (hkind : kind.IsOfWord (String.ofList text)) :
    Element text rest (some (kind, String.ofList text))
  | number {text rest} (hrun : MaximalRun Char.isDigit text rest)
    (hrange : Numeral.toNat text ≤ 2 ^ 63 - 1) :
    Element text rest (some (.number, String.ofList text))
  | string {body rest value} (hbody : StringBody body value) :
    Element ('\x27' :: (body ++ ['\x27'])) rest (some (.string, String.ofList value))
  | mark {kind rest} (hkind : kind ∈ TokenKind.marks)
    (hlongest : ∀ other ∈ TokenKind.marks, other.lexeme.toList <+: kind.lexeme.toList ++ rest →
      other.lexeme.toList.length ≤ kind.lexeme.toList.length)
    (hline : ¬ ['/', '/'] <+: kind.lexeme.toList ++ rest)
    (hblock : ¬ ['/', '*'] <+: kind.lexeme.toList ++ rest) :
    Element kind.lexeme.toList rest (some (kind, kind.lexeme))

/-- What is wrong with the text `c :: cs` if no element stands at its front. -/
def failureAt (c : Char) (cs : List Char) : Failure.Cause :=
  if c = '/' ∧ cs.head? = some '*' then .unterminatedComment
  else if c = '\x27' then .unterminatedString
  else if c.isDigit then .numberOutOfRange (String.ofList (c :: cs.takeWhile Char.isDigit))
  else .unrecognisedToken (String.singleton c)

/-! ## Runs -/

section

variable {α : Type} {p : α → Bool} {run rest : List α}

theorem takeWhile_append_eq (hall : ∀ a ∈ run, p a = true) (hmaximal : ∀ a ∈ rest.head?, p a = false) :
    (run ++ rest).takeWhile p = run := by
  rw [List.takeWhile_append_of_pos hall]
  cases rest with
  | nil => simp
  | cons a rest => simp [hmaximal a rfl]

theorem dropWhile_append_eq (hall : ∀ a ∈ run, p a = true) (hmaximal : ∀ a ∈ rest.head?, p a = false) :
    (run ++ rest).dropWhile p = rest := by
  rw [List.dropWhile_append_of_pos hall]
  cases rest with
  | nil => rfl
  | cons a rest => simp [hmaximal a rfl]

end

namespace MaximalRun

variable {p : Char → Bool} {c : Char} {cs tail rest : List Char}

theorem takeWhile (hc : p c = true) : MaximalRun p (c :: cs.takeWhile p) (cs.dropWhile p) where
  nonempty := List.cons_ne_nil _ _
  all := by
    intro d member
    rcases List.mem_cons.1 member with rfl | member
    · exact hc
    · exact List.mem_takeWhile_imp member
  maximal := by
    intro d member
    have hhead := List.head?_dropWhile_not p cs
    rw [Option.mem_def] at member
    rw [member] at hhead
    simpa using hhead

theorem head (h : MaximalRun p (c :: tail) rest) : p c = true :=
  h.all c List.mem_cons_self

theorem takeWhile_eq (h : MaximalRun p (c :: tail) rest) : (tail ++ rest).takeWhile p = tail :=
  takeWhile_append_eq (fun d member => h.all d (List.mem_cons_of_mem _ member)) h.maximal

theorem dropWhile_eq (h : MaximalRun p (c :: tail) rest) : (tail ++ rest).dropWhile p = rest :=
  dropWhile_append_eq (fun d member => h.all d (List.mem_cons_of_mem _ member)) h.maximal

end MaximalRun

/-! ## Classes of characters -/

theorem isDigit_iff {c : Char} : c.isDigit = true ↔ 48 ≤ c.toNat ∧ c.toNat ≤ 57 := by
  simp only [Char.isDigit, Bool.and_eq_true, decide_eq_true_eq, ge_iff_le, UInt32.le_iff_toNat_le]
  exact Iff.rfl

theorem isAlpha_iff {c : Char} :
    c.isAlpha = true ↔ 65 ≤ c.toNat ∧ c.toNat ≤ 90 ∨ 97 ≤ c.toNat ∧ c.toNat ≤ 122 := by
  show (decide (c.val ≥ 65 ∧ c.val ≤ 90) || decide (c.val ≥ 97) && decide (c.val ≤ 122)) = true ↔ _
  simp only [Bool.or_eq_true, Bool.and_eq_true, decide_eq_true_eq, ge_iff_le, UInt32.le_iff_toNat_le]
  exact Iff.rfl

theorem isWordStart_iff {c : Char} :
    isWordStart c = true ↔ isWordPart c = true ∧ c.isDigit = false := by
  have hscore : c = '_' → c.isDigit = false := by
    intro hc
    rw [hc]
    decide
  have halpha : c.isAlpha = true → c.isDigit = false := by
    intro hc
    rw [← Bool.not_eq_true, isDigit_iff]
    rw [isAlpha_iff] at hc
    omega
  simp only [isWordStart, isWordPart, Char.isAlphanum, Bool.or_eq_true, decide_eq_true_eq]
  constructor
  · intro hstart
    exact ⟨hstart.imp_left .inl, hstart.elim halpha hscore⟩
  · rintro ⟨hpart, hdigit⟩
    rcases hpart with (hpart | hpart) | hpart
    · exact .inl hpart
    · rw [hdigit] at hpart
      cases hpart
    · exact .inr hpart

theorem isBlank_of_isWordPart {c : Char} (h : isWordPart c = true) : isBlank c = false := by
  simp only [isWordPart, Char.isAlphanum, Bool.or_eq_true, decide_eq_true_eq, isAlpha_iff,
    isDigit_iff] at h
  have hrange : 48 ≤ c.toNat ∧ c.toNat ≤ 122 := by
    rcases h with (h | h) | rfl
    · omega
    · omega
    · decide
  rw [← Bool.not_eq_true]
  simp only [isBlank, blankRanges, CodeRanges.has, List.any_cons, List.any_nil, Bool.or_false,
    Bool.or_eq_true, Bool.and_eq_true, decide_eq_true_eq]
  omega

theorem isWordPart_of_isDigit {c : Char} (h : c.isDigit = true) : isWordPart c = true := by
  simp [isWordPart, Char.isAlphanum, h]

/-! ## Marks -/

namespace TokenKind

variable {c d : Char} {kind : TokenKind}

theorem ofPair?_eq_some_iff :
    ofPair? c d = some kind ↔ kind ∈ pairs ∧ kind.lexeme.toList = [c, d] := by
  constructor
  · intro h
    unfold ofPair? at h
    split at h <;> cases h <;> decide
  · rintro ⟨hkind, htext⟩
    have hread : ∀ kind ∈ pairs, (kind.lexeme.toList[0]?.bind fun c =>
        kind.lexeme.toList[1]?.bind fun d => ofPair? c d) = some kind := by decide
    have hkind' := hread kind hkind
    rwa [htext] at hkind'

theorem ofSign?_eq_some_iff :
    ofSign? c = some kind ↔ kind ∈ signs ∧ kind.lexeme.toList = [c] := by
  constructor
  · intro h
    unfold ofSign? at h
    split at h <;> cases h <;> decide
  · rintro ⟨hkind, htext⟩
    have hread : ∀ kind ∈ signs, kind.lexeme.toList[0]?.bind ofSign? = some kind := by decide
    have hkind' := hread kind hkind
    rwa [htext] at hkind'

theorem length_of_mem_pairs (h : kind ∈ pairs) : kind.lexeme.toList.length = 2 := by
  have hall : ∀ kind ∈ pairs, kind.lexeme.toList.length = 2 := by decide
  exact hall kind h

theorem length_of_mem_signs (h : kind ∈ signs) : kind.lexeme.toList.length = 1 := by
  have hall : ∀ kind ∈ signs, kind.lexeme.toList.length = 1 := by decide
  exact hall kind h

/-- No mark starts like blank space, a word, a number or a string. -/
theorem head_of_mem_marks (h : kind ∈ marks) (hc : c ∈ kind.lexeme.toList.head?) :
    isBlank c = false ∧ isWordPart c = false ∧ c ≠ '\x27' := by
  have hall : ∀ kind ∈ marks, (kind.lexeme.toList.head?.all fun c =>
      decide (isBlank c = false ∧ isWordPart c = false ∧ c ≠ '\x27')) = true := by decide
  exact of_decide_eq_true ((Option.all_eq_true _ _).1 (hall kind h) c hc)

theorem ofWord?_eq_some_iff {word : String} :
    ofWord? word = some kind ↔ kind ∈ keywords ∧ kind.lexeme = word := by
  constructor
  · intro h
    rw [ofWord?] at h
    have hlexeme := List.find?_some h
    exact ⟨List.mem_of_find?_eq_some h, of_decide_eq_true hlexeme⟩
  · rintro ⟨hkind, hword⟩
    have hread : ∀ kind ∈ keywords, ofWord? kind.lexeme = some kind := by decide
    rw [← hword]
    exact hread kind hkind

theorem isOfWord_iff {word : String} :
    kind.IsOfWord word ↔ (ofWord? word).getD .identifier = kind := by
  constructor
  · intro h
    cases h with
    | keyword hkind hword => rw [ofWord?_eq_some_iff.2 ⟨hkind, hword⟩, Option.getD_some]
    | identifier hword =>
      have hnone : ofWord? word = none := by
        rw [Option.eq_none_iff_forall_ne_some]
        intro kind hsome
        obtain ⟨hkind, hlexeme⟩ := ofWord?_eq_some_iff.1 hsome
        exact hword kind hkind hlexeme
      rw [hnone, Option.getD_none]
  · intro h
    cases hword : ofWord? word with
    | some keyword =>
      rw [hword, Option.getD_some] at h
      obtain ⟨hkind, hlexeme⟩ := ofWord?_eq_some_iff.1 (h ▸ hword)
      exact .keyword hkind hlexeme
    | none =>
      rw [hword, Option.getD_none] at h
      rw [← h]
      refine .identifier fun kind hkind hlexeme => ?_
      rw [ofWord?_eq_some_iff.2 ⟨hkind, hlexeme⟩] at hword
      cases hword

end TokenKind

/-! ## Numbers -/

namespace Numeral

theorem toNat_concat (digits : List Char) (d : Char) :
    toNat (digits ++ [d]) = 10 * toNat digits + (d.toNat - '0'.toNat) := by
  rw [toNat, List.reverse_append, List.reverse_singleton, List.singleton_append, List.map_cons,
    Nat.ofDigits_cons, Nat.add_comm]
  rfl

theorem foldl_eq_toNat (digits : List Char) :
    digits.foldl (fun n d => 10 * n + (d.toNat - '0'.toNat)) 0 = toNat digits := by
  induction digits using List.reverseRecOn with
  | nil => rfl
  | append_singleton digits d ih => rw [List.foldl_concat, ih, toNat_concat]

/-- A run of digits has a value exactly if its number fits. -/
theorem value?_of_digits {c : Char} {cs : List Char} (h : ∀ d ∈ c :: cs, d.isDigit = true) :
    value? (c :: cs) = if toNat (c :: cs) ≤ 2 ^ 63 - 1 then some (toNat (c :: cs) : Int) else none := by
  have hc := h c List.mem_cons_self
  have hdigits : digits? (c :: cs) = some (toNat (c :: cs)) := by
    rw [digits?, if_pos (List.all_eq_true.2 h), foldl_eq_toNat]
  have hvalue : value? (c :: cs) = (digits? (c :: cs)).bind fun n => fit? n := by
    unfold value?
    split
    · next heq => cases heq; cases hc
    · next heq => cases heq; cases hc
    · rfl
  rw [hvalue, hdigits, Option.bind_some, fit?]
  split <;> split <;> first | rfl | omega

end Numeral

/-! ## Elements -/

theorem TokenKind.lexeme_ne_nil_of_mem_marks {kind : TokenKind} (h : kind ∈ marks) :
    kind.lexeme.toList ≠ [] := by
  have hall : ∀ kind ∈ marks, kind.lexeme.toList ≠ [] := by decide
  exact hall kind h

theorem Element.nonempty {text rest : List Char} {token? : Option (TokenKind × String)}
    (h : Element text rest token?) : text ≠ [] := by
  cases h with
  | blank hrun => exact hrun.nonempty
  | word hrun => exact hrun.nonempty
  | number hrun => exact hrun.nonempty
  | mark hkind => exact TokenKind.lexeme_ne_nil_of_mem_marks hkind
  | lineComment | blockComment | string => exact List.cons_ne_nil _ _

end WattFront
