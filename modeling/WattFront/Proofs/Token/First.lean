import WattFront.Proofs.Token.Element

/-! # The first lexeme is the element at the front

The functions that split a text are shown to stop where the element stops, one after the other, and
`first_eq_ok_iff` puts them together. Since the first lexeme is a function of the text, at most one
element stands at its front.
-/

namespace WattFront

namespace Lexeme

variable {c : Char} {cs text body rest seen : List Char} {l : Lexeme} {cause : Failure.Cause}
  {token? : Option (TokenKind × String)}

/-! ## Comments -/

theorem splitComment_append (hfirst : ¬ ['*', '/'] <:+: body ++ ['*']) :
    splitComment seen (body ++ '*' :: '/' :: rest) = some (seen.reverse ++ (body ++ ['*', '/']), rest) := by
  induction body generalizing seen with
  | nil => simp [splitComment]
  | cons c body ih =>
    rw [List.cons_append, List.infix_cons_iff, not_or] at hfirst
    rw [List.cons_append, splitComment, ih hfirst.2]
    · simp
    · intro cs hc htail
      apply hfirst.1
      cases body with
      | nil => cases htail
      | cons d body =>
        cases htail
        rw [hc, List.cons_append]
        exact List.prefix_append ['*', '/'] _

theorem of_splitComment (h : splitComment seen text = some (body, rest)) :
    ∃ inner, body = seen.reverse ++ (inner ++ ['*', '/']) ∧ text = inner ++ '*' :: '/' :: rest
      ∧ ¬ ['*', '/'] <:+: inner ++ ['*'] := by
  fun_induction splitComment seen text with
  | case1 seen cs =>
    cases h
    exact ⟨[], by simp, rfl, by decide⟩
  | case2 seen c cs hother ih =>
    -- The first end of the rest is the first one of the whole, since none starts at `c`.
    obtain ⟨inner, hbody, htext, hfirst⟩ := ih h
    refine ⟨c :: inner, by simp [hbody], by simp [htext], ?_⟩
    rw [List.cons_append, List.infix_cons_iff, not_or]
    refine ⟨?_, hfirst⟩
    intro hstarts
    obtain ⟨hc, htail⟩ := List.cons_prefix_cons.1 hstarts
    cases inner with
    | nil => exact absurd htail (by decide)
    | cons d inner =>
      obtain ⟨hd, _⟩ := List.cons_prefix_cons.1 htail
      subst hc hd
      exact hother _ rfl htext
  | case3 => cases h

theorem comment_eq_ok_iff :
    comment cs = .ok l ↔ ∃ body, l = ⟨none, '/' :: '*' :: (body ++ ['*', '/']), l.rest⟩
      ∧ cs = body ++ '*' :: '/' :: l.rest ∧ ¬ ['*', '/'] <:+: body ++ ['*'] := by
  rw [comment]
  constructor
  · intro h
    split at h
    · next hsplit =>
      obtain ⟨inner, rfl, hcs, hfirst⟩ := of_splitComment hsplit
      cases h
      exact ⟨inner, rfl, hcs, hfirst⟩
    · cases h
  · rintro ⟨inner, hl, hcs, hfirst⟩
    rw [hcs, splitComment_append hfirst, hl]
    rfl

/-! ## Strings -/

theorem splitString_append {value : List Char} (h : StringBody body value) :
    splitString seen (body ++ '\x27' :: rest) = some (seen.reverse ++ body, rest) := by
  induction h generalizing seen with
  | nil => simp [splitString]
  | @plain c cs value hquote hslash hline _ ih =>
    rw [List.cons_append, splitString]
    · simp [hquote, hslash, hline, ih]
    · intro d ds hc
      exact absurd hc hslash
  | @escape c d cs value hmeaning _ ih =>
    have hline : c ≠ '\n' := by
      intro hc
      rw [hc] at hmeaning
      cases hmeaning
    simp [splitString, hline, ih]
  | kept hline _ _ ih => simp [splitString, hline, ih]

theorem decode_of_stringBody {value : List Char} (h : StringBody body value) :
    Escape.decode body = value := by
  induction h with
  | nil => rfl
  | plain _ hslash _ _ ih =>
    rw [Escape.decode, ih]
    intro d ds hc
    exact absurd hc hslash
  | escape hmeaning _ ih => simp [Escape.decode, hmeaning, ih]
  | kept _ hmeaning _ ih => simp [Escape.decode, hmeaning, ih]

theorem of_splitString (h : splitString seen text = some (body, rest)) :
    ∃ inner, body = seen.reverse ++ inner ∧ text = inner ++ '\x27' :: rest
      ∧ StringBody inner (Escape.decode inner) := by
  fun_induction splitString seen text with
  | case1 => cases h
  | case2 seen c cs hline ih =>
    obtain ⟨inner, hbody, htext, hinner⟩ := ih h
    refine ⟨'\\' :: c :: inner, by simp [hbody], by simp [htext], ?_⟩
    cases hmeaning : Escape.meaning? c with
    | some d =>
      rw [Escape.decode, hmeaning]
      exact .escape hmeaning hinner
    | none =>
      rw [Escape.decode, hmeaning]
      exact .kept hline hmeaning hinner
  | case3 seen cs _ =>
    cases h
    exact ⟨[], by simp, rfl, .nil⟩
  | case4 => cases h
  | case5 seen c cs hescape hquote hother ih =>
    rw [not_or] at hother
    obtain ⟨inner, hbody, htext, hinner⟩ := ih h
    refine ⟨c :: inner, by simp [hbody], by simp [htext], ?_⟩
    have hdecode : Escape.decode (c :: inner) = c :: Escape.decode inner := by
      rw [Escape.decode]
      intro d ds hc
      exact absurd hc hother.1
    rw [hdecode]
    exact .plain hquote hother.1 hother.2 hinner
  | case6 => cases h

theorem string_eq_ok_iff :
    string cs = .ok l ↔ ∃ body value,
      l = ⟨some (.string, String.ofList value), '\x27' :: (body ++ ['\x27']), l.rest⟩
      ∧ cs = body ++ '\x27' :: l.rest ∧ StringBody body value := by
  rw [string]
  constructor
  · intro h
    split at h
    · next hsplit =>
      obtain ⟨inner, rfl, hcs, hinner⟩ := of_splitString hsplit
      cases h
      exact ⟨_, _, rfl, hcs, hinner⟩
    · cases h
  · rintro ⟨inner, value, hl, hcs, hinner⟩
    rw [hcs, splitString_append hinner, hl]
    simp [decode_of_stringBody hinner]

/-! ## Marks -/

theorem sign_eq_ok_iff :
    sign c cs = .ok l ↔ ∃ kind ∈ TokenKind.signs, kind.lexeme.toList = [c]
      ∧ l = ⟨some (kind, kind.lexeme), [c], cs⟩ := by
  rw [sign]
  constructor
  · intro h
    split at h
    · next kind hsign =>
      obtain ⟨hkind, htext⟩ := TokenKind.ofSign?_eq_some_iff.1 hsign
      cases h
      exact ⟨kind, hkind, htext, rfl⟩
    · cases h
  · rintro ⟨kind, hkind, htext, hl⟩
    rw [TokenKind.ofSign?_eq_some_iff.2 ⟨hkind, htext⟩, hl]

theorem length_of_mem_marks {kind : TokenKind} (h : kind ∈ TokenKind.marks) :
    kind.lexeme.toList.length ≤ 2 := by
  rcases List.mem_append.1 h with h | h
  · exact (TokenKind.length_of_mem_pairs h).le
  · exact (TokenKind.length_of_mem_signs h).trans_le (by decide)

/-- Where no pair is found, a mark is a sign: a longer one would be a pair. -/
theorem length_of_ofPair?_eq_none {d : Char} {ds : List Char} {kind : TokenKind}
    (hpair : TokenKind.ofPair? c d = none) (hkind : kind ∈ TokenKind.marks)
    (hstarts : kind.lexeme.toList <+: c :: d :: ds) : kind.lexeme.toList.length ≤ 1 := by
  rcases List.mem_append.1 hkind with hkind | hkind
  · obtain ⟨a, b, hab⟩ := List.length_eq_two.1 (TokenKind.length_of_mem_pairs hkind)
    rw [hab] at hstarts
    obtain ⟨ha, hrest⟩ := List.cons_prefix_cons.1 hstarts
    obtain ⟨hb, _⟩ := List.cons_prefix_cons.1 hrest
    subst ha hb
    rw [TokenKind.ofPair?_eq_some_iff.2 ⟨hkind, hab⟩] at hpair
    cases hpair
  · exact (TokenKind.length_of_mem_signs hkind).le

theorem longest_of_mark (h : mark c cs = .ok l) :
    ∃ kind ∈ TokenKind.marks, kind.lexeme.toList ++ l.rest = c :: cs
      ∧ l = ⟨some (kind, kind.lexeme), kind.lexeme.toList, l.rest⟩
      ∧ ∀ other ∈ TokenKind.marks, other.lexeme.toList <+: c :: cs →
        other.lexeme.toList.length ≤ kind.lexeme.toList.length := by
  unfold mark at h
  split at h
  · next d ds =>
    split at h
    · next kind hpair =>
      obtain ⟨hkind, htext⟩ := TokenKind.ofPair?_eq_some_iff.1 hpair
      cases h
      refine ⟨kind, List.mem_append_left _ hkind, by rw [htext]; rfl, by rw [htext], ?_⟩
      intro other hother _
      rw [TokenKind.length_of_mem_pairs hkind]
      exact length_of_mem_marks hother
    · next hpair =>
      obtain ⟨kind, hkind, htext, rfl⟩ := sign_eq_ok_iff.1 h
      refine ⟨kind, List.mem_append_right _ hkind, by rw [htext]; rfl, by rw [htext], ?_⟩
      intro other hother hstarts
      rw [TokenKind.length_of_mem_signs hkind]
      exact length_of_ofPair?_eq_none hpair hother hstarts
  · obtain ⟨kind, hkind, htext, rfl⟩ := sign_eq_ok_iff.1 h
    refine ⟨kind, List.mem_append_right _ hkind, by rw [htext]; rfl, by rw [htext], ?_⟩
    intro other _ hstarts
    rw [htext]
    exact hstarts.length_le

theorem mark_of_longest {kind : TokenKind} (hkind : kind ∈ TokenKind.marks)
    (hcs : kind.lexeme.toList ++ l.rest = c :: cs)
    (hl : l = ⟨some (kind, kind.lexeme), kind.lexeme.toList, l.rest⟩)
    (hlongest : ∀ other ∈ TokenKind.marks, other.lexeme.toList <+: c :: cs →
      other.lexeme.toList.length ≤ kind.lexeme.toList.length) : mark c cs = .ok l := by
  rcases List.mem_append.1 hkind with hpair | hsign
  · obtain ⟨a, b, hab⟩ := List.length_eq_two.1 (TokenKind.length_of_mem_pairs hpair)
    rw [hab, List.cons_append, List.singleton_append] at hcs
    cases hcs
    rw [mark, TokenKind.ofPair?_eq_some_iff.2 ⟨hpair, hab⟩, hl, hab]
  · obtain ⟨a, ha⟩ := List.length_eq_one_iff.1 (TokenKind.length_of_mem_signs hsign)
    rw [ha, List.singleton_append] at hcs
    cases hcs
    have hdone : sign c l.rest = .ok l := sign_eq_ok_iff.2 ⟨kind, hsign, ha, by rw [hl, ha]⟩
    cases hrest : l.rest with
    | nil => rwa [hrest] at hdone
    | cons d ds =>
      rw [hrest] at hdone hlongest
      rw [mark]
      split
      · next other hother =>
        obtain ⟨hmember, htext⟩ := TokenKind.ofPair?_eq_some_iff.1 hother
        have hle := hlongest other (List.mem_append_left _ hmember)
          (by rw [htext]; exact List.prefix_append [c, d] ds)
        rw [TokenKind.length_of_mem_pairs hmember, TokenKind.length_of_mem_signs hsign] at hle
        omega
      · exact hdone

/-- A mark in front of a text that starts with no longer one. -/
theorem mark_eq_ok_iff :
    mark c cs = .ok l ↔ ∃ kind ∈ TokenKind.marks, kind.lexeme.toList ++ l.rest = c :: cs
      ∧ l = ⟨some (kind, kind.lexeme), kind.lexeme.toList, l.rest⟩
      ∧ ∀ other ∈ TokenKind.marks, other.lexeme.toList <+: c :: cs →
        other.lexeme.toList.length ≤ kind.lexeme.toList.length := by
  constructor
  · exact longest_of_mark
  · rintro ⟨_, hkind, hcs, hl, hlongest⟩
    exact mark_of_longest hkind hcs hl hlongest

/-! ## The front of a text -/

theorem element_of_numeral {digits : List Char} (hrun : MaximalRun Char.isDigit digits rest)
    (h : numeral digits rest = .ok l) : Element l.text l.rest l.token? := by
  obtain ⟨c, cs, rfl⟩ := List.exists_cons_of_ne_nil hrun.nonempty
  rw [numeral, Numeral.value?_of_digits hrun.all] at h
  split at h
  · next hrange =>
    cases h
    exact .number hrun (by simpa using hrange)
  · cases h

theorem element_of_mark (hline : ¬ ['/', '/'] <+: c :: cs) (hblock : ¬ ['/', '*'] <+: c :: cs)
    (h : mark c cs = .ok l) : Element l.text l.rest l.token? := by
  obtain ⟨kind, hkind, hcs, hl, hlongest⟩ := mark_eq_ok_iff.1 h
  rw [← hcs] at hlongest hline hblock
  rw [hl]
  exact .mark hkind hlongest hline hblock

theorem element_of_slash (h : slash cs = .ok l) : Element l.text l.rest l.token? := by
  unfold slash at h
  split at h
  · next cs =>
    cases h
    refine .lineComment ?_ ?_
    · intro member
      have hbody := List.mem_takeWhile_imp member
      simp at hbody
    · intro c member
      have hhead := List.head?_dropWhile_not (· ≠ '\n') cs
      rw [Option.mem_def] at member
      rw [member] at hhead
      simpa using hhead
  · next cs =>
    obtain ⟨body, hl, _, hfirst⟩ := comment_eq_ok_iff.1 h
    rw [hl]
    exact .blockComment hfirst
  · next cs hline hblock =>
    refine element_of_mark ?_ ?_ h
    · intro hstarts
      obtain ⟨ds, hds⟩ := hstarts
      exact hline ds (List.cons.inj hds).2.symm
    · intro hstarts
      obtain ⟨ds, hds⟩ := hstarts
      exact hblock ds (List.cons.inj hds).2.symm

theorem element_of_first (h : first c cs = .ok l) : Element l.text l.rest l.token? := by
  unfold first at h
  split at h
  · next hblank =>
    cases h
    exact .blank (.takeWhile hblank)
  split at h
  · next hword =>
    cases h
    obtain ⟨hpart, hdigit⟩ := isWordStart_iff.1 hword
    refine .word (.takeWhile hpart) ?_ (TokenKind.isOfWord_iff.2 rfl)
    intro d hd
    cases hd
    exact hdigit
  split at h
  · next hdigit => exact element_of_numeral (.takeWhile hdigit) h
  split at h
  · next hquote =>
    obtain ⟨body, value, hl, _, hbody⟩ := string_eq_ok_iff.1 h
    rw [hl]
    exact .string hbody
  split at h
  · exact element_of_slash h
  · next hslash =>
    refine element_of_mark ?_ ?_ h
    all_goals
      intro hstarts
      exact hslash (List.cons_prefix_cons.1 hstarts).1.symm

theorem first_quote : first '\x27' cs = string cs := rfl

theorem first_slash : first '/' cs = slash cs := rfl

/-- A slash that does not open a comment is a mark like any other. -/
theorem first_eq_mark (hblank : isBlank c = false) (hpart : isWordPart c = false) (hquote : c ≠ '\x27')
    (hline : ¬ ['/', '/'] <+: c :: cs) (hblock : ¬ ['/', '*'] <+: c :: cs) : first c cs = mark c cs := by
  have hstart : isWordStart c = false := by
    rw [← Bool.not_eq_true, isWordStart_iff]
    simp [hpart]
  have hdigit : c.isDigit = false := by
    rw [← Bool.not_eq_true]
    intro hdigit
    rw [isWordPart_of_isDigit hdigit] at hpart
    cases hpart
  rw [first, if_neg (by simp [hblank]), if_neg (by simp [hstart]), if_neg (by simp [hdigit]),
    if_neg hquote]
  split
  · next hslash =>
    subst hslash
    unfold slash
    split
    · exact absurd (List.prefix_append ['/', '/'] _) hline
    · exact absurd (List.prefix_append ['/', '*'] _) hblock
    · rfl
  · rfl

/-- The element at the front of a text is its first lexeme. -/
theorem first_of_element (h : Element text rest token?) (htext : text ++ rest = c :: cs) :
    first c cs = .ok ⟨token?, text, rest⟩ := by
  cases h with
  | blank hrun =>
    obtain ⟨d, tail, rfl⟩ := List.exists_cons_of_ne_nil hrun.nonempty
    rw [List.cons_append] at htext
    cases htext
    rw [first, if_pos hrun.head, hrun.takeWhile_eq, hrun.dropWhile_eq]
  | @lineComment body _ hbody hrest =>
    rw [List.cons_append] at htext
    cases htext
    have hall : ∀ d ∈ body, decide (d ≠ '\n') = true := by
      intro d member
      simp only [decide_eq_true_eq]
      intro hd
      exact hbody (hd ▸ member)
    have hmaximal : ∀ d ∈ rest.head?, decide (d ≠ '\n') = false := by
      intro d member
      simp [hrest d member]
    rw [List.cons_append, first_slash, slash, takeWhile_append_eq hall hmaximal,
      dropWhile_append_eq hall hmaximal]
  | @blockComment body _ hfirst =>
    rw [List.cons_append] at htext
    cases htext
    rw [List.cons_append, first_slash, slash]
    exact comment_eq_ok_iff.2 ⟨body, rfl, by simp, hfirst⟩
  | word hrun hstart hkind =>
    obtain ⟨d, tail, rfl⟩ := List.exists_cons_of_ne_nil hrun.nonempty
    rw [List.cons_append] at htext
    cases htext
    have hblank := isBlank_of_isWordPart hrun.head
    rw [first, if_neg (by simp [hblank]), if_pos (isWordStart_iff.2 ⟨hrun.head, hstart c rfl⟩),
      hrun.takeWhile_eq, hrun.dropWhile_eq, word, TokenKind.isOfWord_iff.1 hkind]
  | number hrun hrange =>
    obtain ⟨d, tail, rfl⟩ := List.exists_cons_of_ne_nil hrun.nonempty
    rw [List.cons_append] at htext
    cases htext
    have hblank := isBlank_of_isWordPart (isWordPart_of_isDigit hrun.head)
    have hstart : ¬ isWordStart c = true := by
      rw [isWordStart_iff]
      simp [hrun.head]
    rw [first, if_neg (by simp [hblank]), if_neg hstart, if_pos hrun.head, hrun.takeWhile_eq,
      hrun.dropWhile_eq, numeral, Numeral.value?_of_digits hrun.all, if_pos hrange, Option.isSome_some, if_pos rfl]
  | string hbody =>
    rw [List.cons_append] at htext
    cases htext
    rw [first_quote]
    exact string_eq_ok_iff.2 ⟨_, _, rfl, by simp, hbody⟩
  | @mark kind _ hkind hlongest hline hblock =>
    rw [htext] at hlongest hline hblock
    have hhead : c ∈ kind.lexeme.toList.head? := by
      obtain ⟨d, tail, hlexeme⟩ :=
        List.exists_cons_of_ne_nil (TokenKind.lexeme_ne_nil_of_mem_marks hkind)
      rw [hlexeme, List.cons_append] at htext
      cases htext
      rw [hlexeme]
      rfl
    obtain ⟨hblank, hpart, hquote⟩ := TokenKind.head_of_mem_marks hkind hhead
    rw [first_eq_mark hblank hpart hquote hline hblock]
    exact mark_eq_ok_iff.2 ⟨kind, hkind, htext, rfl, hlongest⟩

/-- What the first lexeme of a text is. -/
theorem first_eq_ok_iff :
    first c cs = .ok l ↔ Element l.text l.rest l.token? ∧ l.text ++ l.rest = c :: cs := by
  constructor
  · exact fun h => ⟨element_of_first h, append_of_first h⟩
  · rintro ⟨helement, htext⟩
    exact first_of_element helement htext

/-! ## Texts without an element at the front -/

theorem failureAt_of_numeral (hdigit : c.isDigit = true)
    (h : numeral (c :: cs.takeWhile Char.isDigit) rest = .error cause) : cause = failureAt c cs := by
  unfold numeral at h
  split at h
  · cases h
  · cases h
    rw [failureAt, if_neg, if_neg, if_pos hdigit]
    · intro hquote
      rw [hquote] at hdigit
      cases hdigit
    · rintro ⟨hslash, _⟩
      rw [hslash] at hdigit
      cases hdigit

theorem failureAt_of_mark (hdigit : c.isDigit = false) (hquote : c ≠ '\x27') (hslash : c ≠ '/')
    (h : mark c cs = .error cause) : cause = failureAt c cs := by
  have hsign {ds : List Char} (hs : sign c ds = .error cause) :
      cause = .unrecognisedToken (String.singleton c) := by
    unfold sign at hs
    split at hs <;> cases hs
    rfl
  rw [failureAt, if_neg (fun hc => hslash hc.1), if_neg hquote, if_neg (by simp [hdigit])]
  unfold mark at h
  split at h
  · split at h
    · cases h
    · exact hsign h
  · exact hsign h

theorem failureAt_of_slash (h : slash cs = .error cause) : cause = failureAt '/' cs := by
  unfold slash at h
  split at h
  · cases h
  · unfold comment at h
    split at h <;> cases h
    rfl
  · unfold mark at h
    split at h
    · split at h <;> cases h
    · cases h

theorem failureAt_of_first (h : first c cs = .error cause) : cause = failureAt c cs := by
  unfold first at h
  split at h
  · cases h
  split at h
  · cases h
  split at h
  · next hdigit => exact failureAt_of_numeral hdigit h
  split at h
  · next hquote =>
    subst hquote
    unfold string at h
    split at h <;> cases h
    rfl
  split at h
  · next hslash =>
    subst hslash
    exact failureAt_of_slash h
  · next hdigit hquote hslash =>
    exact failureAt_of_mark (by simpa using hdigit) hquote hslash h

/-- What is wrong with a text whose first lexeme cannot be read. -/
theorem first_eq_error_iff :
    first c cs = .error cause ↔
      (∀ text rest token?, text ++ rest = c :: cs → ¬ Element text rest token?)
        ∧ cause = failureAt c cs := by
  constructor
  · intro h
    refine ⟨?_, failureAt_of_first h⟩
    intro text rest token? htext helement
    rw [first_of_element helement htext] at h
    cases h
  · rintro ⟨hnone, hcause⟩
    cases hfirst : first c cs with
    | ok l => exact absurd (element_of_first hfirst) (hnone _ _ _ (append_of_first hfirst))
    | error other => rw [hcause, failureAt_of_first hfirst]

end Lexeme

end WattFront
