import WattFront.Proofs.Source.Returns
import WattFront.Proofs.Token.Seam

/-! # Tokens of a text with carriage returns

A carriage return in front of a line feed is blank space in front of blank space, or the last character of a line
comment, or a character inside of a block comment. No token reaches over a line feed, so none of them changes, and
what cannot be read still cannot.

* `Lexeme.first_withReturns` — the first lexeme with carriage returns;
* `Lexed.withReturns` — what comes out of a text with carriage returns.
-/

namespace WattFront

/-! ## Runs -/

section

variable {p : Char → Bool}

theorem takeWhile_withReturns (hp : p '\r' = p '\n') (text : List Char) :
    (withReturns text).takeWhile p = withReturns (text.takeWhile p) := by
  induction text with
  | nil => rfl
  | cons c text ih =>
    by_cases hc : c = '\n'
    · subst hc
      rw [withReturns_feed, List.takeWhile_cons, List.takeWhile_cons, List.takeWhile_cons, hp, ih]
      cases p '\n' <;> rfl
    · rw [withReturns_cons hc, List.takeWhile_cons, List.takeWhile_cons, ih]
      cases p c
      · rfl
      · exact (withReturns_cons hc _).symm

theorem dropWhile_withReturns (hp : p '\r' = p '\n') (text : List Char) :
    (withReturns text).dropWhile p = withReturns (text.dropWhile p) := by
  induction text with
  | nil => rfl
  | cons c text ih =>
    by_cases hc : c = '\n'
    · subst hc
      rw [withReturns_feed, List.dropWhile_cons, List.dropWhile_cons, List.dropWhile_cons, hp, ih]
      cases p '\n' <;> rfl
    · rw [withReturns_cons hc, List.dropWhile_cons, List.dropWhile_cons, ih]
      cases p c
      · exact (withReturns_cons hc _).symm
      · rfl

/-- A run that no line feed belongs to holds none. -/
theorem withReturns_run {c : Char} (hc : c ≠ '\n') (hp : p '\n' = false) (text : List Char) :
    withReturns (c :: text.takeWhile p) = c :: text.takeWhile p := by
  refine withReturns_of_notMem fun member => ?_
  rcases List.mem_cons.1 member with heq | member
  · exact hc heq.symm
  · have hfeed := List.mem_takeWhile_imp member
    rw [hp] at hfeed
    cases hfeed

end

/-! ## The first lexeme -/

/-- A string literal stands on one line. -/
theorem StringBody.line {body value : List Char} (h : StringBody body value) : '\n' ∉ body := by
  induction h with
  | nil => exact List.not_mem_nil
  | plain _ _ hline _ ih => simpa [ih] using Ne.symm hline
  | @escape c _ _ _ hmeaning _ ih =>
    have hline : c ≠ '\n' := by
      rintro rfl
      cases hmeaning
    simpa [ih] using Ne.symm hline
  | kept hline _ _ ih => simpa [ih] using Ne.symm hline

namespace Lexeme

variable {c : Char} {cs seen seen' text : List Char}

def amongReturns (l : Lexeme) : Lexeme :=
  ⟨l.token?, withReturns l.text, withReturns l.rest⟩

/-- The end of a comment is where it was. -/
theorem splitComment_withReturns (hseen : seen'.reverse = withReturns seen.reverse) (text : List Char) :
    splitComment seen' (withReturns text)
      = (splitComment seen text).map fun (body, rest) => (withReturns body, withReturns rest) := by
  fun_induction splitComment seen text generalizing seen' with
  | case1 seen cs => simp [withReturns_cons, splitComment, hseen]
  | case2 seen c cs hother ih =>
    by_cases hc : c = '\n'
    · subst hc
      rw [withReturns_feed, splitComment, splitComment]
      · exact ih (by simp [hseen])
      all_goals simp
    · rw [withReturns_cons hc, splitComment]
      · exact ih (by simp [hseen, withReturns_cons hc])
      · intro rest hstar hrest
        have hslash : '/' ∈ (withReturns cs).head? := by rw [hrest]; rfl
        rcases head?_withReturns hslash with hhead | ⟨hreturn, -⟩
        · obtain ⟨tail, htail⟩ := List.head?_eq_some_iff.1 hhead
          exact hother tail hstar htail
        · cases hreturn
  | case3 => rfl

/-- A string literal ends where it did, or it still does not end on its line. -/
theorem splitString_withReturns (hseen : seen'.reverse = withReturns seen.reverse) (text : List Char) :
    splitString seen' (withReturns text)
      = (splitString seen text).map fun (body, rest) => (withReturns body, withReturns rest) := by
  fun_induction splitString seen text generalizing seen' with
  | case1 seen cs => simp [withReturns_cons, splitString]
  | case2 seen c cs hc ih =>
    rw [withReturns_cons (by decide), withReturns_cons hc, splitString, if_neg hc]
    exact ih (by simp [hseen, withReturns_cons hc, withReturns_cons])
  | case3 seen cs _ => simp [withReturns_cons, splitString, hseen]
  | case4 seen c cs hescape hquote hends =>
    rcases hends with rfl | rfl
    · cases cs with
      | nil => simp [withReturns_cons, splitString]
      | cons d cs => exact absurd rfl (hescape d cs rfl)
    · simp [splitString]
  | case5 seen c cs hescape hquote hends ih =>
    rw [not_or] at hends
    rw [withReturns_cons hends.2, splitString, if_neg hquote, if_neg (not_or.2 hends)]
    · exact ih (by simp [hseen, withReturns_cons hends.2])
    · intro d ds hc
      exact absurd hc hends.1
  | case6 => rfl

theorem comment_withReturns (cs : List Char) : comment (withReturns cs) = (comment cs).map amongReturns := by
  rw [comment, comment, @splitComment_withReturns [] [] rfl]
  cases splitComment [] cs with
  | none => rfl
  | some parts => simp [Except.map, amongReturns, withReturns_cons]

theorem string_withReturns (cs : List Char) : string (withReturns cs) = (string cs).map amongReturns := by
  rw [string, string, @splitString_withReturns [] [] rfl]
  cases hsplit : splitString [] cs with
  | none => rfl
  | some parts =>
    obtain ⟨body, rest⟩ := parts
    obtain ⟨inner, rfl, -, hbody⟩ := of_splitString hsplit
    have hline : withReturns body = body := withReturns_of_notMem hbody.line
    simp [Except.map, amongReturns, withReturns_cons, hline]

theorem sign_withReturns (hc : c ≠ '\n') (cs : List Char) : sign c (withReturns cs) = (sign c cs).map amongReturns := by
  rw [sign, sign]
  cases TokenKind.ofSign? c with
  | none => rfl
  | some kind => simp [Except.map, amongReturns, withReturns_cons hc]

/-- No mark goes on with a line feed or with a carriage return. -/
theorem ofPair?_blank {d : Char} (hd : d = '\n' ∨ d = '\r') : TokenKind.ofPair? c d = none := by
  rw [Option.eq_none_iff_forall_ne_some]
  intro kind hpair
  obtain ⟨hkind, htext⟩ := TokenKind.ofPair?_eq_some_iff.1 hpair
  have hall : ∀ kind ∈ TokenKind.pairs, '\n' ∉ kind.lexeme.toList ∧ '\r' ∉ kind.lexeme.toList := by decide
  have hnone := hall kind hkind
  rw [htext] at hnone
  rcases hd with rfl | rfl <;> simp at hnone

theorem mark_withReturns (hc : c ≠ '\n') (cs : List Char) : mark c (withReturns cs) = (mark c cs).map amongReturns := by
  cases cs with
  | nil => exact sign_withReturns hc []
  | cons d cs =>
    by_cases hd : d = '\n'
    · subst hd
      rw [withReturns_feed, mark, mark, ofPair?_blank (.inr rfl), ofPair?_blank (.inl rfl)]
      exact sign_withReturns hc ('\n' :: cs)
    · have hsign := sign_withReturns hc (d :: cs)
      rw [withReturns_cons hd] at hsign ⊢
      rw [mark, mark]
      cases TokenKind.ofPair? c d with
      | none => exact hsign
      | some kind => simp [Except.map, amongReturns, withReturns_cons hc, withReturns_cons hd]

theorem slash_withReturns (hcs : cs.head? ≠ some '/') : slash (withReturns cs) = (slash cs).map amongReturns := by
  have hmark : mark '/' (withReturns cs) = (mark '/' cs).map amongReturns := mark_withReturns (by decide) cs
  cases cs with
  | nil => exact hmark
  | cons d cs =>
    have hslash : d ≠ '/' := fun hd => hcs (congrArg some hd)
    by_cases hfeed : d = '\n'
    · subst hfeed
      exact hmark
    · rw [withReturns_cons hfeed] at hmark ⊢
      by_cases hstar : d = '*'
      · rw [hstar, slash, slash, comment_withReturns]
      · rw [slash, slash, hmark] <;> simp [hslash, hstar]

/-- The first lexeme stays what it is, unless the text starts with a line feed or with a line comment. -/
theorem first_withReturns (hfeed : c ≠ '\n') (hcomment : ¬ (c = '/' ∧ cs.head? = some '/')) :
    first c (withReturns cs) = (first c cs).map amongReturns := by
  have hblank : isBlank '\n' = true := by decide
  have hblank' : isBlank '\r' = true := by decide
  rw [first, first]
  -- Of the runs only blank space has room for line feeds, and carriage returns are as blank as they are.
  split
  · rw [takeWhile_withReturns (hblank'.trans hblank.symm), dropWhile_withReturns (hblank'.trans hblank.symm)]
    simp [Except.map, amongReturns, withReturns_cons hfeed]
  split
  · rw [takeWhile_withReturns (by decide), dropWhile_withReturns (by decide)]
    have hrun := withReturns_run hfeed (p := isWordPart) (by decide) cs
    rw [withReturns_cons hfeed] at hrun
    simp [Except.map, amongReturns, hrun, withReturns_cons hfeed]
  split
  · rw [takeWhile_withReturns (by decide), dropWhile_withReturns (by decide)]
    have hrun := withReturns_run hfeed (p := Char.isDigit) (by decide) cs
    rw [withReturns_cons hfeed] at hrun
    rw [hrun, numeral, numeral]
    split
    · simp [Except.map, amongReturns, hrun, withReturns_cons hfeed]
    · rfl
  split
  · exact string_withReturns cs
  split
  · next hc => exact slash_withReturns fun hhead => hcomment ⟨hc, hhead⟩
  · exact mark_withReturns hfeed cs

/-- Blank space that starts with a line feed starts with the carriage return in front of it then. -/
theorem first_feed (cs : List Char) :
    first '\r' ('\n' :: withReturns cs) = (first '\n' cs).map amongReturns := by
  have hrun := takeWhile_withReturns (p := isBlank) (by decide) ('\n' :: cs)
  have hrest := dropWhile_withReturns (p := isBlank) (by decide) ('\n' :: cs)
  have hblank : isBlank '\n' = true := by decide
  have hblank' : isBlank '\r' = true := by decide
  simp_all [first, Except.map, amongReturns]

end Lexeme

/-! ## Texts -/

variable {file : String} {offset : Nat} {front text rest source : List Char} {c : Char}
  {result : Except Failure (List Token)}

/-- An element stays one with carriage returns, unless it is a line comment, to which the carriage return behind
it would belong. -/
theorem Element.withReturns {token? : Option (TokenKind × String)} (h : Element text rest token?) :
    (∃ body, text = '/' :: '/' :: body ∧ token? = none ∧ '\n' ∉ body ∧ ∀ c ∈ rest.head?, c = '\n')
      ∨ Element (withReturns text) (withReturns rest) token? := by
  obtain ⟨c, tail, rfl⟩ := List.exists_cons_of_ne_nil h.nonempty
  have hfirst := Lexeme.first_of_element h (List.cons_append ..)
  by_cases hfeed : c = '\n'
  · subst hfeed
    have hreturn := Lexeme.first_feed (tail ++ rest)
    rw [hfirst] at hreturn
    exact .inr (Lexeme.element_of_first hreturn)
  by_cases hcomment : c = '/' ∧ (tail ++ rest).head? = some '/'
  · obtain ⟨rfl, hhead⟩ := hcomment
    obtain ⟨cs, hcs⟩ := List.head?_eq_some_iff.1 hhead
    rw [hcs, Lexeme.first_slash, Lexeme.slash] at hfirst
    cases hfirst
    refine .inl ⟨_, rfl, rfl, fun member => ?_, fun d member => ?_⟩
    · have hfeed' := List.mem_takeWhile_imp member
      simp at hfeed'
    · have hend := List.head?_dropWhile_not (fun c => decide (c ≠ '\n')) cs
      rw [Option.mem_def] at member
      rw [member] at hend
      simpa using hend
  · have hreturns := Lexeme.first_withReturns hfeed hcomment
    rw [hfirst] at hreturns
    exact .inr (Lexeme.element_of_first hreturns)

/-- Where no element stands, none stands with carriage returns either. -/
theorem Lexed.failed_withReturns {c : Char} {cs : List Char}
    (hnone : ∀ text rest token?, text ++ rest = c :: cs → ¬ Element text rest token?) :
    Lexed file offset (withReturns (c :: cs)) (.error ⟨failureAt c cs, .atByte offset file⟩) := by
  have hfirst : Lexeme.first c cs = .error (failureAt c cs) := Lexeme.first_eq_error_iff.2 ⟨hnone, rfl⟩
  have hfeed : c ≠ '\n' := by
    rintro rfl
    cases hfirst
  have hcomment : ¬ (c = '/' ∧ cs.head? = some '/') := by
    rintro ⟨rfl, hhead⟩
    obtain ⟨tail, rfl⟩ := List.head?_eq_some_iff.1 hhead
    cases hfirst
  have hreturns := Lexeme.first_withReturns hfeed hcomment
  rw [hfirst] at hreturns
  obtain ⟨hnone', hcause⟩ := Lexeme.first_eq_error_iff.1 hreturns
  rw [withReturns_cons hfeed, hcause]
  exact .failed hnone'

/-- Blank space in front of a text changes nothing about what comes out of it. -/
theorem Lexed.blank_cons_iff (hc : isBlank c = true) :
    Lexed file offset (c :: text) result ↔ Lexed file (offset + c.utf8Size) text result := by
  constructor
  · intro h
    obtain ⟨outcome, hbehind⟩ := exists_lexed file (offset + c.utf8Size) text
    rwa [h.unique (.blank_cons hc hbehind)]
  · exact .blank_cons hc

/-- A line comment in front of a text with carriage returns. -/
theorem Lexed.line_withReturns {body : List Char} (hbody : '\n' ∉ body) (hrest : ∀ c ∈ rest.head?, c = '\n')
    (h : Lexed file (offset + byteLength ('/' :: '/' :: body)) (withReturns rest) result) :
    Lexed file offset ('/' :: '/' :: body ++ withReturns rest) result := by
  cases rest with
  | nil => exact .skipped (.lineComment hbody nofun) h
  | cons c rest =>
    -- The comment takes the carriage return with it, which is blank space elsewhere.
    obtain rfl := hrest c rfl
    have hcomment : Element ('/' :: '/' :: (body ++ ['\r'])) ('\n' :: withReturns rest) none :=
      .lineComment (by simpa using hbody) fun c hc => (Option.some.inj hc).symm
    rw [withReturns_feed, Lexed.blank_cons_iff (by decide)] at h
    have hlexed : Lexed file offset (_ ++ _) result := .skipped hcomment (by simpa [Nat.add_assoc] using h)
    simpa using hlexed

/-- With carriage returns the same comes out of a text, at the positions that stand there for those of the text. -/
theorem Lexed.withReturns (h : Lexed file offset text result) (hoffset : offset = byteLength front)
    (hsource : source = front ++ text) (hsize : byteLength source < 2 ^ 32) :
    Lexed file (byteLength (withReturns front)) (withReturns text)
      (outcomeMoved (Position.amongReturns source) result) := by
  have hmove {front back : List Char} (hsource : source = front ++ back) :
      (Position.atByte (byteLength front) file).amongReturns source
        = .atByte (byteLength (WattFront.withReturns front)) file := by
    subst hsource
    exact Position.amongReturns_atByte hsize file
  -- By induction on the outcome: each element moves into the text in front.
  induction h generalizing front with
  | done =>
    subst hoffset
    have hend := hmove hsource
    simp only [outcomeMoved, List.map_cons, List.map_nil, Token.moved, Token.endOfInput, Span.moved, Span.empty, hend]
    exact .done
  | @skipped offset text rest outcome helement _ ih =>
    have hbehind := ih (by rw [hoffset, byteLength_append]) (by rw [hsource, List.append_assoc])
    rw [withReturns_append, byteLength_append] at hbehind
    rw [withReturns_append]
    rcases helement.withReturns with ⟨body, rfl, -, hbody, hrest⟩ | helement
    · have hline : WattFront.withReturns ('/' :: '/' :: body) = '/' :: '/' :: body :=
        withReturns_of_notMem (by simpa using hbody)
      rw [hline] at hbehind ⊢
      exact .line_withReturns hbody hrest hbehind
    · exact .skipped helement hbehind
  | @token offset text rest kind value outcome helement _ ih =>
    have hfront : offset + byteLength text = byteLength (front ++ text) := by rw [hoffset, byteLength_append]
    have hrest : source = front ++ text ++ rest := by rw [hsource, List.append_assoc]
    have hbehind := ih hfront hrest
    rw [withReturns_append, byteLength_append] at hbehind
    rw [withReturns_append]
    rcases helement.withReturns with ⟨-, -, htoken, -⟩ | helement
    · cases htoken
    · have htext := Lexed.token helement hbehind
      cases outcome with
      | error f => exact htext
      | ok tokens =>
        have hstart := hmove hsource
        have hstop := hmove hrest
        rw [withReturns_append, byteLength_append, byteLength_append] at hstop
        simp only [outcomeMoved, Except.map, List.map_cons, Token.moved, Span.moved, hoffset, hstart, hstop]
        exact htext
  | @failed offset c cs hnone =>
    simp only [outcomeMoved, Failure.moved, hoffset, hmove hsource]
    exact .failed_withReturns hnone

end WattFront
