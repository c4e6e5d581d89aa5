import WattFront.Proofs.Token.Word

/-! # Words in any layout

How the words of a text are laid out does not matter. Between any two of them stands a *gap*: blank space
and comments, in any order. The text is read as one token for each word, with the span of the spelling of
that word.

* `Gap` — what may stand between two words, and `LastGap` what may stand behind the last one;
* `LaidOut` — words with gaps such that no word runs into what follows it;
* `tokenize_laidOut` — the tokens of a text that is laid out so.
-/

namespace WattFront

/-- Blank space and comments that are closed: a line comment by its line feed, a block comment by the first
end of a comment behind its opening. -/
inductive Gap : List Char → Prop
  | nil : Gap []
  | blank {c gap} (hc : isBlank c = true) (hgap : Gap gap) : Gap (c :: gap)
  | lineComment {body gap} (hbody : '\n' ∉ body) (hgap : Gap gap) :
    Gap ('/' :: '/' :: (body ++ '\n' :: gap))
  | blockComment {body gap} (hfirst : ¬ ['*', '/'] <:+: body ++ ['*']) (hgap : Gap gap) :
    Gap ('/' :: '*' :: (body ++ ['*', '/']) ++ gap)

/-- A gap at the end of a text, where a line comment needs no line feed. -/
inductive LastGap : List Char → Prop
  | closed {gap} (hgap : Gap gap) : LastGap gap
  | lineComment {gap body} (hgap : Gap gap) (hbody : '\n' ∉ body) : LastGap (gap ++ '/' :: '/' :: body)

def layout (pieces : List (Word × List Char)) : List Char :=
  pieces.flatMap fun (w, gap) => w.text ++ gap

/-- The tokens of words with gaps, behind the text `front` of a file. -/
def layoutTokens (file : String) (front : List Char) : List (Word × List Char) → List Token
  | [] => []
  | (w, gap) :: pieces =>
    ⟨w.kind, w.value, .atByte (byteLength front) file, .atByte (byteLength (front ++ w.text)) file⟩
      :: layoutTokens file (front ++ w.text ++ gap) pieces

/-- An opening gap and words with a gap behind each of them, where no two words touch and no slash makes a
comment of the gap behind it. -/
structure LaidOut (opening : List Char) (pieces : List (Word × List Char)) : Prop where
  spelled : ∀ piece ∈ pieces, piece.1.Spelled
  gaps : ∀ gap ∈ (opening :: pieces.map Prod.snd).dropLast, Gap gap
  last : LastGap ((opening :: pieces.map Prod.snd).getLast (List.cons_ne_nil _ _))
  apart : ∀ piece ∈ pieces.dropLast, piece.2 ≠ []
  noComment : ∀ piece ∈ pieces, piece.1.kind = .slash → piece.2.head? ≠ some '/'

variable {file : String} {offset : Nat} {gap opening rest : List Char} {w : Word}
  {pieces : List (Word × List Char)} {result : Except Failure (List Token)}

/-! ## Gaps -/

/-- A gap in front of a text that does not start with blank space adds nothing to what comes out of it. -/
theorem Gap.lexed (hgap : Gap gap) (h : Lexed file (offset + byteLength gap) rest result) :
    Lexed file offset (gap ++ rest) result := by
  induction hgap generalizing offset with
  | nil => exact h
  | blank hc _ ih =>
    rw [byteLength_cons, ← Nat.add_assoc] at h
    exact .blank_cons hc (ih h)
  | @lineComment body gap hbody _ ih =>
    have hcomment : Element ('/' :: '/' :: body) ('\n' :: (gap ++ rest)) none :=
      .lineComment hbody (by simp)
    have hfeed : Lexed file (offset + byteLength ('/' :: '/' :: body)) ('\n' :: (gap ++ rest)) result := by
      refine .blank_cons (by decide) (ih ?_)
      simpa [Nat.add_assoc] using h
    simpa using Lexed.skipped hcomment hfeed
  | blockComment hfirst _ ih =>
    rw [byteLength_append, ← Nat.add_assoc] at h
    rw [List.append_assoc]
    exact .skipped (.blockComment hfirst) (ih h)

/-- Behind the last gap there is the end of input. -/
theorem LastGap.lexed (h : LastGap gap) :
    Lexed file offset gap (.ok [.endOfInput (.empty (.atByte (offset + byteLength gap) file))]) := by
  cases h with
  | closed hgap =>
    have hend : Lexed file offset (gap ++ []) _ := hgap.lexed Lexed.done
    rwa [List.append_nil] at hend
  | @lineComment gap body hgap hbody =>
    have hcomment : Element ('/' :: '/' :: body) [] none := .lineComment hbody (by simp)
    have hend : Lexed file (offset + byteLength gap + byteLength ('/' :: '/' :: body)) [] _ := .done
    have hlexed := hgap.lexed (.skipped hcomment hend)
    rw [List.append_nil] at hlexed
    rwa [byteLength_append, ← Nat.add_assoc]

/-- A gap starts with blank space or with the slash of a comment. -/
theorem Gap.head (h : Gap gap) {c : Char} (hc : c ∈ gap.head?) : isBlank c = true ∨ c = '/' := by
  cases h with
  | nil => cases hc
  | blank hblank =>
    cases hc
    exact .inl hblank
  | lineComment | blockComment =>
    cases hc
    exact .inr rfl

theorem LastGap.head (h : LastGap gap) {c : Char} (hc : c ∈ gap.head?) :
    isBlank c = true ∨ c = '/' := by
  cases h with
  | closed hgap => exact hgap.head hc
  | @lineComment gap body hgap =>
    cases gap with
    | nil =>
      cases hc
      exact .inr rfl
    | cons d gap => exact hgap.head hc

/-! ## Words with gaps -/

namespace LaidOut

/-- Behind the first word the rest is laid out too. -/
theorem tail (h : LaidOut opening ((w, gap) :: pieces)) : LaidOut gap pieces where
  spelled := fun piece member => h.spelled piece (List.mem_cons_of_mem _ member)
  gaps := fun other member => h.gaps other (List.mem_cons_of_mem _ member)
  last := h.last
  apart := by
    intro piece member
    apply h.apart
    cases pieces with
    | nil => cases member
    | cons next pieces => exact List.mem_cons_of_mem _ member
  noComment := fun piece member => h.noComment piece (List.mem_cons_of_mem _ member)

theorem openingGap (h : LaidOut opening ((w, gap) :: pieces)) : Gap opening :=
  h.gaps opening List.mem_cons_self

/-- Nothing follows a word that could be taken for more of it. -/
theorem mayFollow (h : LaidOut opening ((w, gap) :: pieces)) :
    ∀ c ∈ (gap ++ layout pieces).head?, w.MayFollow c := by
  intro c hc
  cases hgap : gap with
  | nil =>
    cases pieces with
    | nil =>
      rw [hgap] at hc
      cases hc
    | cons next pieces => exact absurd hgap (h.apart (w, gap) List.mem_cons_self)
  | cons d others =>
    have hhead : c ∈ gap.head? := by
      rw [hgap] at hc ⊢
      exact hc
    have hlast : LastGap gap := by
      cases pieces with
      | nil => exact h.last
      | cons next pieces => exact .closed h.tail.openingGap
    rcases hlast.head hhead with hblank | rfl
    · exact .inl hblank
    · exact .inr ⟨rfl, fun hslash => h.noComment (w, gap) List.mem_cons_self hslash hhead⟩

/-- A text that is laid out so falls into its words and gaps. -/
theorem lexed (h : LaidOut opening pieces) (front : List Char) :
    Lexed file (byteLength front) (opening ++ layout pieces)
      (.ok (layoutTokens file (front ++ opening) pieces
        ++ [.endOfInput (.empty (.atByte (byteLength (front ++ opening ++ layout pieces)) file))])) := by
  induction pieces generalizing opening front with
  | nil =>
    have hlast : Lexed file (byteLength front) opening _ := h.last.lexed
    simpa [layout, layoutTokens] using hlast
  | cons piece pieces ih =>
    obtain ⟨w, gap⟩ := piece
    have hrest := ih h.tail (front ++ opening ++ w.text)
    have hspelled := h.spelled (w, gap) List.mem_cons_self
    have hword := Lexed.token (hspelled.element h.mayFollow) (by rwa [byteLength_append] at hrest)
    have hlexed : Lexed file (byteLength front) _ _ :=
      h.openingGap.lexed (by rwa [byteLength_append] at hword)
    have htext : layout ((w, gap) :: pieces) = w.text ++ (gap ++ layout pieces) := by
      simp [layout]
    rw [htext]
    simpa [layoutTokens, Except.map, Nat.add_assoc] using hlexed

end LaidOut

/-- Each token has the span of the spelling of its word. -/
theorem layoutTokens_getElem? {front : List Char} {i : Nat} (h : pieces[i]? = some (w, gap)) :
    (layoutTokens file front pieces)[i]? = some ⟨w.kind, w.value,
      .atByte (byteLength (front ++ layout (pieces.take i))) file,
      .atByte (byteLength (front ++ layout (pieces.take i) ++ w.text)) file⟩ := by
  induction pieces generalizing front i with
  | nil => cases h
  | cons piece pieces ih =>
    cases i with
    | zero =>
      cases h
      simp [layoutTokens, layout]
    | succ i =>
      rw [List.getElem?_cons_succ] at h
      rw [layoutTokens, List.getElem?_cons_succ, ih h]
      simp [layout]

theorem map_word_layoutTokens (file : String) (front : List Char) (pieces : List (Word × List Char)) :
    (layoutTokens file front pieces).map Token.word = pieces.map Prod.fst := by
  induction pieces generalizing front with
  | nil => rfl
  | cons piece pieces ih =>
    rw [layoutTokens, List.map_cons, ih, List.map_cons]
    rfl

theorem byteLength_layout_take {i : Nat} (h : pieces[i]? = some (w, gap)) :
    byteLength (layout (pieces.take i) ++ w.text) ≤ byteLength (layout pieces) := by
  have hpieces : pieces = pieces.take i ++ (w, gap) :: pieces.drop (i + 1) := by
    obtain ⟨hi, hpiece⟩ := List.getElem?_eq_some_iff.1 h
    rw [← hpiece, List.getElem_cons_drop, List.take_append_drop]
  have hlayout : layout pieces
      = layout (pieces.take i) ++ (w.text ++ (gap ++ layout (pieces.drop (i + 1)))) := by
    conv_lhs => rw [hpieces]
    simp [layout]
  rw [hlayout]
  simp only [byteLength_append]
  omega

theorem Position.toNat_atByte {n : Nat} (h : n < 2 ^ 32) (file : String) :
    (Position.atByte n file).offset.toNat = n :=
  UInt32.toNat_ofNat_of_lt' h

/-- A text of words with gaps between them is read as one token for each word, whatever the gaps are, with the
end of input behind the text. The spans are those of the words; in a text of less than 2^32 bytes their
offsets are not cut down. -/
theorem tokenize_laidOut (file : String) (h : LaidOut opening pieces) :
    tokenize (opening ++ layout pieces) file =
        .ok (layoutTokens file opening pieces
          ++ [.endOfInput (.empty (.atByte (byteLength (opening ++ layout pieces)) file))])
      ∧ (layoutTokens file opening pieces).map Token.word = pieces.map Prod.fst
      ∧ (byteLength (opening ++ layout pieces) < 2 ^ 32 →
        ∀ i w gap, pieces[i]? = some (w, gap) → ∃ token, (layoutTokens file opening pieces)[i]? = some token
          ∧ token.span.start.offset.toNat = byteLength (opening ++ layout (pieces.take i))
          ∧ token.span.stop.offset.toNat = byteLength (opening ++ layout (pieces.take i) ++ w.text)) := by
  refine ⟨?_, map_word_layoutTokens file opening pieces, ?_⟩
  · have hlexed : Lexed file _ _ _ := h.lexed []
    rw [List.nil_append] at hlexed
    exact hlexed.tokenize_eq
  · intro hsize i w gap hpiece
    have hle := byteLength_layout_take hpiece
    rw [byteLength_append] at hsize hle
    refine ⟨_, layoutTokens_getElem? hpiece, Position.toNat_atByte ?_ file, Position.toNat_atByte ?_ file⟩
    all_goals
      simp only [byteLength_append]
      omega

theorem tokenize_laidOut_of_comments :
    let opening := ['/', '/', 'a', '\n']
    let pieces : List (Word × List Char) := [(⟨.identifier, "x"⟩, ['/', '*', '/', '*', '/']),
      (TokenKind.slash.word, [' ', '/', '/', '\n']), (⟨.string, "it's"⟩, ['\t']),
      (⟨.number, "007"⟩, ['/', '/'])]
    LaidOut opening pieces ∧
      tokenize (opening ++ layout pieces) "" = .ok (layoutTokens "" opening pieces
        ++ [.endOfInput (.empty (.atByte (byteLength (opening ++ layout pieces)) ""))]) := by
  intro opening pieces
  have hopening : Gap ('/' :: '/' :: (['a'] ++ ['\n'])) := .lineComment (by decide) .nil
  have hblock : Gap ('/' :: '*' :: (['/'] ++ ['*', '/']) ++ []) := .blockComment (by decide) .nil
  have hline : Gap (' ' :: '/' :: '/' :: ([] ++ ['\n'])) := .blank (by decide) (.lineComment (by decide) .nil)
  have hlast : LastGap ([] ++ ['/', '/']) := .lineComment .nil (by decide)
  have hspelled : ∀ piece ∈ pieces, piece.1.Spelled := by
    simp only [pieces, List.forall_mem_cons]
    have hdigits : ∀ c ∈ "007".toList, c.isDigit = true := List.all_eq_true.1 (by decide)
    exact ⟨.name (by decide), .fixed (by decide), .string, .number (by decide) hdigits (by decide),
      List.forall_mem_nil _⟩
  have h : LaidOut opening pieces := by
    refine ⟨hspelled, ?_, hlast, by decide, by decide⟩
    simp only [pieces, List.map_cons, List.map_nil, List.dropLast_cons_cons, List.dropLast_singleton,
      List.forall_mem_cons]
    exact ⟨hopening, hblock, hline, .blank (by decide) .nil, List.forall_mem_nil _⟩
  exact ⟨h, (tokenize_laidOut "" h).1⟩

end WattFront
