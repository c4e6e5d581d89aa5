import WattFront.Proofs.Grammar.Concatenation
import WattFront.Proofs.Grammar.Diagnosis
import WattFront.Proofs.Token.Returns

/-! # Line endings do not matter

A text and the same text with a carriage return in front of each line feed are read alike: as programs that are
the same up to spans, or with the same failure on the same line and in the same column.

The tokens of both texts are the same up to their positions (`tokenize_withReturns`), and so is what is read from
them. A failure points at the start of a character or at the end of the text, so the carriage returns in front of
it are all on other lines.
-/

namespace WattFront

variable {source : List Char} {file : String} {f : Failure}

/-- With carriage returns a text has the same tokens at other positions, or it fails in the same way. -/
theorem tokenize_withReturns (hsize : byteLength source < 2 ^ 32) :
    tokenize (withReturns source) file
      = outcomeMoved (Position.amongReturns source) (tokenize source file) := by
  obtain ⟨result, hresult⟩ := exists_lexed file 0 source
  have hreturns : Lexed file (byteLength (withReturns [])) (withReturns source) _ :=
    hresult.withReturns rfl (List.nil_append _).symm hsize
  rw [hresult.tokenize_eq]
  exact hreturns.tokenize_eq

/-! ## Where failures point at -/

/-- A failure points at the start of a character of a source, or at its end. -/
def Failure.StandsIn (source : List Char) (file : String) (f : Failure) : Prop :=
  ∃ front back, source = front ++ back ∧ f.position = .atByte (byteLength front) file

theorem failure_stands_of_tokenize (h : tokenize source file = .error f) : f.StandsIn source file := by
  obtain ⟨front, c, cs, rfl, rfl⟩ := (lexed_of_tokenize h).exists_failure
  exact ⟨front, c :: cs, rfl, by rw [Nat.zero_add]⟩

/-- A failure of the grammar points at the start of a token. -/
theorem Program.failure_stands {tokens : List Token} (htokens : tokenize source file = .ok tokens)
    (hsize : byteLength source < 2 ^ 32) (h : ofTokens tokens file = .error f) : f.StandsIn source file := by
  obtain ⟨t, hmem, hpoints, -⟩ := ofTokens_points_at htokens hsize h
  obtain ⟨words, rfl, hstands, -⟩ := stands_of_tokenize htokens hsize
  rw [Failure.StandsIn, hpoints.position_eq]
  rcases List.mem_append.1 hmem with hword | hend
  · obtain ⟨front, text, back, hsource, -, hspan⟩ := hstands t hword
    exact ⟨front, text ++ back, hsource, by rw [hspan]⟩
  · rw [List.mem_singleton.1 hend]
    exact ⟨source, [], (List.append_nil _).symm, rfl⟩

/-- A failure keeps its line and its column among the carriage returns. -/
theorem Failure.StandsIn.lineColumn_moved (h : f.StandsIn source file)
    (hsize : byteLength (withReturns source) < 2 ^ 32) :
    f.lineColumn source = (f.moved (Position.amongReturns source)).lineColumn (withReturns source) := by
  obtain ⟨front, back, rfl, hposition⟩ := h
  have hsize' : byteLength (front ++ back) < 2 ^ 32 := by
    rw [byteLength_withReturns] at hsize
    omega
  -- The move is exact here because the failure points in between two characters.
  have hmoved : (f.moved (Position.amongReturns (front ++ back))).position
      = .atByte (byteLength (withReturns front)) file := by
    rw [moved, hposition, Position.amongReturns_atByte hsize']
  rw [withReturns_append, byteLength_append] at hsize
  rw [byteLength_append] at hsize'
  refine lineColumn_withReturns ?_ ?_
  · rw [hposition]
    exact Position.toNat_atByte (by omega) file
  · rw [hmoved]
    exact Position.toNat_atByte (by omega) file

/-! ## Programs -/

/-- A text is read alike with line feeds and with carriage returns in front of them. -/
theorem Program.ofSource_withReturns (hsize : byteLength (withReturns source) < 2 ^ 32) :
    (∃ p q, ofSource source file = .ok p ∧ ofSource (withReturns source) file = .ok q ∧ p.bare = q.bare)
      ∨ ∃ f g, ofSource source file = .error f ∧ ofSource (withReturns source) file = .error g
        ∧ f.cause = g.cause ∧ f.lineColumn source = g.lineColumn (withReturns source) := by
  have hsize' : byteLength source < 2 ^ 32 := by
    rw [byteLength_withReturns] at hsize
    omega
  have hreturns : ofSource (withReturns source) file
      = (outcomeMoved (Position.amongReturns source) (tokenize source file)).bind (ofTokens · file) := by
    rw [ofSource, tokenize_withReturns hsize']
    rfl
  have hsource : ofSource source file = (tokenize source file).bind (ofTokens · file) := rfl
  rw [hsource, hreturns]
  cases htokens : tokenize source file with
  | error f =>
    have hstands := failure_stands_of_tokenize htokens
    exact .inr ⟨f, _, rfl, rfl, rfl, hstands.lineColumn_moved hsize⟩
  | ok tokens =>
    obtain ⟨words, hwords, -, -⟩ := stands_of_tokenize htokens hsize'
    have hmoved := ofTokens_eq_moved words (.empty (.atByte (byteLength source) file))
      (Position.amongReturns source) file
    rw [← hwords] at hmoved
    cases hread : ofTokens tokens file with
    | error f =>
      rw [hread] at hmoved
      exact .inr ⟨f, _, hread, hmoved, rfl, (failure_stands htokens hsize' hread).lineColumn_moved hsize⟩
    | ok p =>
      rw [hread] at hmoved
      refine .inl ⟨p, _, hread, hmoved, ?_⟩
      have hitems : ∀ i ∈ p.items, i.bare = (i.moved (Position.amongReturns source)).bare :=
        fun i _ => (i.bare_moved _).symm
      simpa [Program.bare] using hitems

set_option maxRecDepth 1000 in
/-- A name without a use, in a text of two lines: the column does not count what stands on the first one. -/
theorem Program.ofSource_withReturns_of_bare_name :
    let source := ['/', '/', '\n', ' ', 'x']
    let f (offset : Nat) : Failure := ⟨.unexpectedToken "definition or assignment" "x", .atByte offset "a"⟩
    byteLength (withReturns source) < 2 ^ 32 ∧ ofSource source "a" = .error (f 4)
      ∧ ofSource (withReturns source) "a" = .error (f 5)
      ∧ (f 4).lineColumn source = (f 5).lineColumn (withReturns source) := by
  intro source f
  have hsize : byteLength (withReturns source) < 2 ^ 32 := by decide
  have hread : ofSource source "a" = .error (f 4) := by decide +kernel
  have hreturns : ofSource (withReturns source) "a" = .error (f 5) := by decide +kernel
  obtain ⟨p, q, hp, -⟩ | ⟨g, g', hg, hg', -, hcolumn⟩ := @Program.ofSource_withReturns source "a" hsize
  · rw [hread] at hp
    cases hp
  · rw [hread] at hg
    rw [hreturns] at hg'
    cases hg
    cases hg'
    exact ⟨hsize, hread, hreturns, hcolumn⟩

end WattFront
