import WattFront.Failure.Basic
import WattFront.Text.Blank
import WattFront.Token.Escape
import WattFront.Token.Kind
import WattFront.Token.Numeral

/-! # The first lexeme of a text

A text falls into *lexemes*: blank space and comments, which are skipped, and the spellings of
tokens. `Lexeme.first` finds the lexeme that a non-empty text starts with. Runs of blank space, words
and numerals go on as long as they can, and a mark of two characters wins over a mark of one.

* `Lexeme.append_of_first` — a lexeme and what follows it are the whole text;
* `Lexeme.rest_lt_of_first` — a lexeme is not empty.
-/

namespace WattFront

def isWordStart (c : Char) : Bool :=
  c.isAlpha || c = '_'

def isWordPart (c : Char) : Bool :=
  c.isAlphanum || c = '_'

/-- The front of a text: the characters of the lexeme, the token they spell if it is not skipped,
and the text that follows. -/
structure Lexeme where
  token? : Option (TokenKind × String)
  text : List Char
  rest : List Char
deriving DecidableEq, Repr

namespace Lexeme

/-- Splits a text behind the first end of a block comment. `seen` holds the characters already
passed, latest first. -/
def splitComment (seen : List Char) : List Char → Option (List Char × List Char)
  | '*' :: '/' :: cs => some (('/' :: '*' :: seen).reverse, cs)
  | c :: cs => splitComment (c :: seen) cs
  | [] => none

/-- Splits a text at the first single quote that no backslash precedes; the quote itself is left
out. There is no such quote on the line if a line feed comes first. `seen` holds the characters
already passed, latest first. -/
def splitString (seen : List Char) : List Char → Option (List Char × List Char)
  | '\\' :: c :: cs => if c = '\n' then none else splitString (c :: '\\' :: seen) cs
  | c :: cs =>
    if c = '\x27' then some (seen.reverse, cs)
    else if c = '\\' ∨ c = '\n' then none
    else splitString (c :: seen) cs
  | [] => none

def word (text : List Char) : TokenKind × String :=
  let value := String.ofList text
  ((TokenKind.ofWord? value).getD .identifier, value)

/-- The lexeme of a numeral; its number must fit into an integer. -/
def numeral (text rest : List Char) : Except Failure.Cause Lexeme :=
  let value := String.ofList text
  if (Numeral.value? text).isSome then .ok ⟨some (.number, value), text, rest⟩
  else .error (.numberOutOfRange value)

def string (cs : List Char) : Except Failure.Cause Lexeme :=
  match splitString [] cs with
  | some (body, rest) =>
    .ok ⟨some (.string, String.ofList (Escape.decode body)), '\x27' :: (body ++ ['\x27']), rest⟩
  | none => .error .unterminatedString

def comment (cs : List Char) : Except Failure.Cause Lexeme :=
  match splitComment [] cs with
  | some (body, rest) => .ok ⟨none, '/' :: '*' :: body, rest⟩
  | none => .error .unterminatedComment

def sign (c : Char) (cs : List Char) : Except Failure.Cause Lexeme :=
  match TokenKind.ofSign? c with
  | some kind => .ok ⟨some (kind, kind.lexeme), [c], cs⟩
  | none => .error (.unrecognisedToken (String.singleton c))

/-- The lexeme of a mark, of two characters if possible. -/
def mark (c : Char) : List Char → Except Failure.Cause Lexeme
  | d :: cs =>
    match TokenKind.ofPair? c d with
    | some kind => .ok ⟨some (kind, kind.lexeme), [c, d], cs⟩
    | none => sign c (d :: cs)
  | [] => sign c []

def slash : List Char → Except Failure.Cause Lexeme
  | '/' :: cs => .ok ⟨none, '/' :: '/' :: cs.takeWhile (· ≠ '\n'), cs.dropWhile (· ≠ '\n')⟩
  | '*' :: cs => comment cs
  | cs => mark '/' cs

def first (c : Char) (cs : List Char) : Except Failure.Cause Lexeme :=
  if isBlank c then .ok ⟨none, c :: cs.takeWhile isBlank, cs.dropWhile isBlank⟩
  else if isWordStart c then
    .ok ⟨some (word (c :: cs.takeWhile isWordPart)), c :: cs.takeWhile isWordPart,
      cs.dropWhile isWordPart⟩
  else if c.isDigit then numeral (c :: cs.takeWhile Char.isDigit) (cs.dropWhile Char.isDigit)
  else if c = '\x27' then string cs
  else if c = '/' then slash cs
  else mark c cs

/-! ## A lexeme is a front part of the text -/

theorem append_of_splitComment {seen text body rest : List Char}
    (h : splitComment seen text = some (body, rest)) : body ++ rest = seen.reverse ++ text := by
  fun_induction splitComment seen text with
  | case1 seen cs =>
    simp only [Option.some.injEq, Prod.mk.injEq] at h
    simp [← h.1, ← h.2]
  | case2 seen c cs _ ih => simp [ih h]
  | case3 => simp at h

theorem append_of_splitString {seen text body rest : List Char}
    (h : splitString seen text = some (body, rest)) :
    body ++ '\x27' :: rest = seen.reverse ++ text := by
  fun_induction splitString seen text with
  | case1 => simp at h
  | case2 seen c cs _ ih => simp [ih h]
  | case3 seen cs _ =>
    simp only [Option.some.injEq, Prod.mk.injEq] at h
    simp [← h.1, ← h.2]
  | case4 => simp at h
  | case5 seen c cs _ _ _ ih => simp [ih h]
  | case6 => simp at h

/-- A lexeme that opens the text `c :: cs`: it starts with `c`, and its other characters and what
follows it are `cs`. -/
def Opens (l : Lexeme) (c : Char) (cs : List Char) : Prop :=
  ∃ tail, l.text = c :: tail ∧ tail ++ l.rest = cs

theorem opens_of_numeral {c : Char} {cs rest : List Char} {l : Lexeme}
    (h : numeral (c :: cs) rest = .ok l) : l.Opens c (cs ++ rest) := by
  unfold numeral at h
  split at h
  · simp only [Except.ok.injEq] at h
    exact ⟨cs, by simp [← h]⟩
  · simp at h

theorem opens_of_string {cs : List Char} {l : Lexeme} (h : string cs = .ok l) :
    l.Opens '\x27' cs := by
  unfold string at h
  split at h
  · next body rest hs =>
    simp only [Except.ok.injEq] at h
    exact ⟨body ++ ['\x27'], by simpa [← h] using append_of_splitString hs⟩
  · simp at h

theorem opens_of_comment {cs : List Char} {l : Lexeme} (h : comment cs = .ok l) :
    l.Opens '/' ('*' :: cs) := by
  unfold comment at h
  split at h
  · next body rest hs =>
    simp only [Except.ok.injEq] at h
    exact ⟨'*' :: body, by simpa [← h] using append_of_splitComment hs⟩
  · simp at h

theorem opens_of_sign {c : Char} {cs : List Char} {l : Lexeme} (h : sign c cs = .ok l) :
    l.Opens c cs := by
  unfold sign at h
  split at h
  · simp only [Except.ok.injEq] at h
    exact ⟨[], by simp [← h]⟩
  · simp at h

theorem opens_of_mark {c : Char} {cs : List Char} {l : Lexeme} (h : mark c cs = .ok l) :
    l.Opens c cs := by
  unfold mark at h
  split at h
  · next d ds =>
    split at h
    · simp only [Except.ok.injEq] at h
      exact ⟨[d], by simp [← h]⟩
    · exact opens_of_sign h
  · exact opens_of_sign h

theorem opens_of_slash {cs : List Char} {l : Lexeme} (h : slash cs = .ok l) : l.Opens '/' cs := by
  unfold slash at h
  split at h
  · next cs =>
    simp only [Except.ok.injEq] at h
    exact ⟨'/' :: cs.takeWhile (· ≠ '\n'), by simp [← h]⟩
  · exact opens_of_comment h
  · exact opens_of_mark h

/-- The first lexeme opens the text. -/
theorem opens_of_first {c : Char} {cs : List Char} {l : Lexeme} (h : first c cs = .ok l) :
    l.Opens c cs := by
  unfold first at h
  split at h
  · simp only [Except.ok.injEq] at h
    exact ⟨cs.takeWhile isBlank, by simp [← h]⟩
  split at h
  · simp only [Except.ok.injEq] at h
    exact ⟨cs.takeWhile isWordPart, by simp [← h]⟩
  split at h
  · simpa using opens_of_numeral h
  split at h
  · next hc => exact hc ▸ opens_of_string h
  split at h
  · next hc => exact hc ▸ opens_of_slash h
  · exact opens_of_mark h

/-- A lexeme and what follows it are the whole text. -/
theorem append_of_first {c : Char} {cs : List Char} {l : Lexeme} (h : first c cs = .ok l) :
    l.text ++ l.rest = c :: cs := by
  obtain ⟨tail, htext, hrest⟩ := opens_of_first h
  simp [htext, hrest]

/-- What follows the first lexeme is shorter than the text. -/
theorem rest_lt_of_first {c : Char} {cs : List Char} {l : Lexeme} (h : first c cs = .ok l) :
    l.rest.length < (c :: cs).length := by
  obtain ⟨tail, _, hrest⟩ := opens_of_first h
  have hlength := congrArg List.length hrest
  simp only [List.length_append] at hlength
  simp only [List.length_cons]
  omega

end Lexeme

end WattFront
