import WattFront.Proofs.Failure.Report
import WattFront.Proofs.Grammar.LineEndings
import WattFront.Proofs.Grammar.Phases

/-! # Reports of programs

The failure of a text points at a character that is not blank space, or at the end of the text, and all that its
headline says is worded on one line, but for the token that was found: a string is quoted with the line feeds that its
escapes stand for. Neither these nor characters of several bytes are provided for in a report.

* `Program.failure_at_character` — where a failure points at;
* `Program.failure_oneLine` — what it is worded like;
* `Program.ofSource_report` — the result.
-/

namespace WattFront

open Grammar

variable {source : List Char} {file : String} {f : Failure}

/-! ## Where a failure points at -/

/-- The text of a token does not start with blank space, or the blank space would be its element. -/
theorem Element.head_not_blank {text rest : List Char} {token : TokenKind × String}
    (h : Element text rest (some token)) : ∀ c ∈ text.head?, isBlank c = false := by
  intro c hc
  obtain ⟨tail, rfl⟩ := List.head?_eq_some_iff.mp hc
  have hfirst := Lexeme.first_of_element h rfl
  by_contra hblank
  rw [Lexeme.first, if_pos (by simpa using hblank)] at hfirst
  cases hfirst

/-- A failure points at a character that is not blank, or at the end of the text. -/
theorem Program.failure_at_character (hsize : byteLength source < 2 ^ 32) (h : ofSource source file = .error f) :
    ∃ front back, source = front ++ back ∧ f.position = .atByte (byteLength front) file
      ∧ ∀ c ∈ back.head?, isBlank c = false := by
  cases htokens : tokenize source file with
  | error g =>
    rw [ofSource, htokens] at h
    cases h
    obtain ⟨front, c, cs, hsource, hnone, rfl, -⟩ := (lexed_of_tokenize htokens).exists_front
    refine ⟨front, c :: cs, hsource, by rw [Nat.zero_add], fun d hd => ?_⟩
    cases hd
    by_contra hblank
    have hrun : MaximalRun isBlank (c :: cs.takeWhile isBlank) (cs.dropWhile isBlank) :=
      .takeWhile (by simpa using hblank)
    exact hnone _ _ none (by rw [List.cons_append, List.takeWhile_append_dropWhile]) (.blank hrun)
  | ok tokens =>
    rw [ofSource, htokens] at h
    obtain ⟨t, hmem, hpoints, -⟩ := ofTokens_points_at htokens hsize h
    obtain ⟨words, rfl, hstands, -⟩ := stands_of_tokenize htokens hsize
    rw [hpoints.position_eq]
    rcases List.mem_append.1 hmem with hword | hend
    · obtain ⟨front, text, back, hsource, helement, hspan⟩ := hstands t hword
      refine ⟨front, text ++ back, hsource, by rw [hspan], fun c hc => helement.head_not_blank c ?_⟩
      rwa [List.head?_append_of_ne_nil _ helement.nonempty] at hc
    · rw [List.mem_singleton.1 hend]
      refine ⟨source, [], (List.append_nil _).symm, rfl, fun c hc => ?_⟩
      cases hc

/-! ## How a failure is worded -/

/-- Whether a cause is worded on one line, apart from a token that was found. -/
def Failure.Cause.OneLine : Failure.Cause → Prop
  | .numberOutOfRange token => '\n' ∉ token.toList
  | .unexpectedToken expected _ => '\n' ∉ expected.toList
  | .unexpectedEnd expected => '\n' ∉ expected.toList
  | .unrecognisedToken _ | .unterminatedString | .unterminatedComment | .nestingTooDeep _ => True

/-- A headline has no line feed but those of a token that was found. -/
theorem Failure.Cause.OneLine.headline (h : f.cause.OneLine) :
    '\n' ∈ f.headline.toList ↔ ∃ expected found, f.cause = .unexpectedToken expected found ∧ '\n' ∈ found.toList := by
  obtain ⟨cause, position⟩ := f
  cases cause with
  | unexpectedToken expected found =>
    have hexpected : '\n' ∉ expected.toList := h
    simp [Failure.headline, Failure.Cause.tip?, Failure.Cause.name, hexpected]
  | numberOutOfRange token =>
    have htoken : '\n' ∉ token.toList := h
    simp [Failure.headline, Failure.Cause.tip?, Failure.Cause.name, htoken]
  | unexpectedEnd expected =>
    have hexpected : '\n' ∉ expected.toList := h
    simp [Failure.headline, Failure.Cause.tip?, Failure.Cause.name, hexpected]
  | nestingTooDeep limit =>
    have hlimit : '\n' ∉ Nat.toDigits 10 limit := fun member =>
      absurd (Nat.isDigit_of_mem_toDigits (by decide) (by decide) member) (by decide)
    simp [Failure.headline, Failure.Cause.tip?, Failure.Cause.name, hlimit]
  | unrecognisedToken | unterminatedString | unterminatedComment =>
    simp [Failure.headline, Failure.Cause.tip?, Failure.Cause.name]

theorem Expectation.oneLine {wording : String} (h : Expectation wording) : '\n' ∉ wording.toList := by
  cases h with
  | kind kind => cases kind <;> decide
  | form h =>
    have hall : ∀ wording ∈ formWordings, '\n' ∉ wording.toList := by decide
    exact hall wording h

theorem failureAt_oneLine (c : Char) (cs : List Char) : (failureAt c cs).OneLine := by
  rw [failureAt]
  split
  · trivial
  · split
    · trivial
    · split
      · next hdigit =>
        have hdigits : ∀ d ∈ c :: cs.takeWhile Char.isDigit, d.isDigit = true :=
          List.forall_mem_cons.2 ⟨hdigit, fun d member => List.mem_takeWhile_imp member⟩
        show '\n' ∉ (String.ofList _).toList
        rw [String.toList_ofList]
        exact fun member => absurd (hdigits _ member) (by decide)
      · trivial

/-- What the grammar complains of is worded on one line, if numbers have values. -/
theorem Cursor.Rejects.oneLine {c : Cursor} (h : c.Rejects f)
    (hnumeral : c.kind = .number → Numeral.value? c.current.value.toList ≠ none) : f.cause.OneLine := by
  cases h with
  | @unexpected expected hexpected =>
    rw [Cursor.unexpected]
    split
    · exact hexpected.oneLine
    · exact hexpected.oneLine
  | tooDeep => trivial
  | badNumeral hkind hvalue => exact absurd hvalue (hnumeral hkind)

theorem Program.failure_oneLine (hsize : byteLength source < 2 ^ 32) (h : ofSource source file = .error f) :
    f.cause.OneLine := by
  cases htokens : tokenize source file with
  | error g =>
    rw [ofSource, htokens] at h
    cases h
    obtain ⟨-, c, cs, -, rfl⟩ := (lexed_of_tokenize htokens).exists_failure
    exact failureAt_oneLine c cs
  | ok tokens =>
    rw [ofSource, htokens] at h
    obtain ⟨words, rfl, hstands, -⟩ := stands_of_tokenize htokens hsize
    obtain ⟨c, htape, hindex, hrejects | ⟨-, rfl⟩⟩ := ofTokens_rejects h
    · refine hrejects.oneLine fun hkind => ?_
      rcases List.mem_append.1 (c.current_mem htape hindex) with hword | hend
      · exact (hstands _ hword).value_isSome hkind
      · rw [Cursor.kind, List.mem_singleton.1 hend] at hkind
        cases hkind
    · show '\n' ∉ "definition or assignment".toList
      decide

/-! ## Reports -/

/-- A text that is no program is reported in the rows of its failure. These are the lines of the report exactly if no
token was found that holds a line feed. The bars stand in one column. If the failure points at a character, the arrow
ends under it exactly if what is shown in front of the character takes one byte for each character. -/
theorem Program.ofSource_report (hsize : byteLength source < 2 ^ 32) (hfile : '\n' ∉ file.toList)
    (h : ofSource source file = .error f) :
    (f.report source).toList = (f.reportRows source).flatMap (· ++ ['\n'])
      ∧ (lines (f.report source).toList = (f.reportRows source).map (· ++ ['\n'])
        ↔ ¬ ∃ expected found, f.cause = .unexpectedToken expected found ∧ '\n' ∈ found.toList)
      ∧ ((f.gutterRow source).idxOf '|' = (f.lineNumber source).length + 1
        ∧ (f.sourceRow source).idxOf '|' = (f.lineNumber source).length + 1
        ∧ (f.caretRow source).idxOf '|' = (f.lineNumber source).length + 1)
      ∧ (f.position.offset.toNat < byteLength source →
        ∃ front c back tail, source = front ++ c :: back ∧ f.position.offset.toNat = byteLength front
          ∧ f.sourceRow source = f.lineLabel source ++ (lastLine front).dropWhile Failure.isIndent ++ c :: tail
          ∧ ((f.caretRow source).idxOf '^' = (f.lineLabel source ++ (lastLine front).dropWhile Failure.isIndent).length
            ↔ ∀ d ∈ (lastLine front).dropWhile Failure.isIndent, d.utf8Size = 1)) := by
  obtain ⟨front, back, rfl, hposition, hback⟩ := failure_at_character hsize h
  have hname : '\n' ∉ f.position.file.toList := by rwa [hposition]
  have hoffset : f.position.offset.toNat = byteLength front := by
    rw [byteLength_append] at hsize
    rw [hposition]
    exact Position.toNat_atByte (by omega) file
  refine ⟨f.report_eq_rows _, ?_, f.bars _, fun hinside => ?_⟩
  · rw [Failure.lines_report hname, (failure_oneLine hsize h).headline]
  · cases back with
    | nil =>
      rw [List.append_nil] at hinside
      omega
    | cons c back =>
      obtain ⟨tail, hrow, harrow⟩ := f.caretRow_points_at back (hback c rfl) hoffset
      exact ⟨front, c, back, tail, rfl, hoffset, hrow, harrow⟩

set_option maxRecDepth 1000 in
/-- A number in place of a name, behind a comment with a character of two bytes: the report has five lines, and the
arrow ends one column behind the number. -/
theorem Program.ofSource_report_of_accent :
    let source := ['/', '*', 'é', '*', '/', 'f', 'n', ' ', '1']
    let f : Failure := ⟨.unexpectedToken "identifier" "1", .atByte 9 "a"⟩
    byteLength source < 2 ^ 32 ∧ '\n' ∉ "a".toList ∧ ofSource source "a" = .error f
      ∧ lines (f.report source).toList = (f.reportRows source).map (· ++ ['\n'])
      ∧ (f.sourceRow source)[12]? = some '1' ∧ (f.caretRow source).idxOf '^' = 13 := by
  intro source f
  have hsize : byteLength source < 2 ^ 32 := by decide
  have hfile : '\n' ∉ "a".toList := by decide
  have hread : ofSource source "a" = .error f := by decide +kernel
  obtain ⟨-, hlines, -, -⟩ := Program.ofSource_report hsize hfile hread
  refine ⟨hsize, hfile, hread, hlines.2 ?_, by decide, by decide⟩
  rintro ⟨expected, found, hcause, hfeed⟩
  cases hcause
  exact absurd hfeed (by decide)

/-- A string in place of a name is quoted in the headline with the line feed that it holds, so the report has six
lines. -/
example : (lines ((⟨.unexpectedToken "identifier" "'a\nb'", .atByte 3 "a"⟩ : Failure).report
    ['f', 'n', ' ', '\x27', 'a', '\\', 'n', 'b', '\x27']).toList).length = 6 := by
  decide

end WattFront
