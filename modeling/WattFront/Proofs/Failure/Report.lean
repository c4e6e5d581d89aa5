import WattFront.Proofs.Source.Lookup

/-! # The rows of a report

A report is made of five rows, each with a line feed behind it: the headline, the file, and three rows that start
with the number of a line or with as much space, up to the bar. Only the headline and the file say what others have
written, so these are the rows that may hold line feeds of their own (`lines_report`).

The arrow is as long as the line in front of it has bytes, while the line is shown by its characters.
`caretRow_points_at` says when the two come to the same.
-/

namespace WattFront

/-! ## Texts -/

theorem length_le_byteLength (text : List Char) : text.length ≤ byteLength text := by
  induction text with
  | nil => rfl
  | cons c text ih =>
    have hpos := c.utf8Size_pos
    rw [List.length_cons, byteLength_cons]
    omega

/-- A text takes as many bytes as characters exactly if each of them is a single byte. -/
theorem byteLength_eq_length_iff {text : List Char} :
    byteLength text = text.length ↔ ∀ c ∈ text, c.utf8Size = 1 := by
  induction text with
  | nil => simp
  | cons c text ih =>
    have hpos := c.utf8Size_pos
    have htail := length_le_byteLength text
    rw [List.forall_mem_cons, byteLength_cons, List.length_cons]
    refine Iff.trans ?_ (and_congr_right' ih)
    omega

section

variable {p : Char → Bool} {c : Char}

theorem takeWhile_in_front (hc : p c = false) (text rest : List Char) :
    (text ++ c :: rest).takeWhile p = text.takeWhile p := by
  induction text with
  | nil => simp [hc]
  | cons d text ih => by_cases hd : p d = true <;> simp [hd, ih]

theorem dropWhile_in_front (hc : p c = false) (text rest : List Char) :
    (text ++ c :: rest).dropWhile p = text.dropWhile p ++ c :: rest := by
  induction text with
  | nil => simp [hc]
  | cons d text ih => by_cases hd : p d = true <;> simp [hd, ih]

end

/-- Rows with a line feed behind each of them are the lines of a text, if they have no line feeds of their own. -/
theorem lines_rows {rows : List (List Char)} (h : ∀ row ∈ rows, '\n' ∉ row) :
    lines (rows.flatMap (· ++ ['\n'])) = rows.map (· ++ ['\n']) := by
  induction rows with
  | nil => rfl
  | cons row rows ih =>
    rw [List.forall_mem_cons] at h
    rw [List.flatMap_cons, List.append_assoc, List.singleton_append, lines_ended h.1, ih h.2, List.map_cons]

theorem lastLine_rows (rows : List (List Char)) : lastLine (rows.flatMap (· ++ ['\n'])) = [] := by
  induction rows with
  | nil => rfl
  | cons row rows ih => rw [List.flatMap_cons, List.append_assoc, List.singleton_append, lastLine_append_feed, ih]

/-! ## Blank space around a line -/

theorem dropBlankEnd_append_blank {c : Char} (hc : isBlank c = true) (text : List Char) :
    dropBlankEnd (text ++ [c]) = dropBlankEnd text := by
  rw [dropBlankEnd, List.reverse_append, List.reverse_singleton, List.singleton_append,
    List.dropWhile_cons_of_pos hc, dropBlankEnd]

/-- A character that is not blank stays, with all in front of it. -/
theorem dropBlankEnd_append {c : Char} (hc : isBlank c = false) (text rest : List Char) :
    ∃ tail, dropBlankEnd (text ++ c :: rest) = text ++ c :: tail := by
  induction rest using List.reverseRecOn with
  | nil =>
    refine ⟨[], ?_⟩
    rw [dropBlankEnd, List.reverse_append, List.reverse_singleton, List.singleton_append,
      List.dropWhile_cons_of_neg (by simp [hc]), List.reverse_cons, List.reverse_reverse]
  | append_singleton rest d ih =>
    rw [← List.cons_append, ← List.append_assoc]
    by_cases hd : isBlank d = true
    · rw [dropBlankEnd_append_blank hd]
      exact ih
    · refine ⟨rest ++ [d], ?_⟩
      rw [dropBlankEnd, List.reverse_append, List.reverse_singleton, List.singleton_append,
        List.dropWhile_cons_of_neg hd, List.reverse_cons, List.reverse_reverse, List.append_assoc, List.cons_append]

theorem dropBlankEnd_subset (text : List Char) : dropBlankEnd text ⊆ text := fun _ member =>
  List.mem_reverse.mp (List.dropWhile_subset _ (List.mem_reverse.mp member))

/-- A first line is shown without its line feed. -/
theorem notMem_shown (text : List Char) : '\n' ∉ dropBlankEnd ((firstLine text).dropWhile Failure.isIndent) := by
  have hopen : ∀ line : List Char, '\n' ∉ line → '\n' ∉ dropBlankEnd (line.dropWhile Failure.isIndent) :=
    fun line hline member => hline (List.dropWhile_subset _ (dropBlankEnd_subset _ member))
  induction text using line_induction with
  | nil => exact hopen [] List.not_mem_nil
  | unended line hline _ => rw [firstLine_of_notMem hline]; exact hopen line hline
  | ended line rest hline _ =>
    rw [firstLine_ended hline, List.dropWhile_append]
    split
    · decide
    · rw [dropBlankEnd_append_blank (by decide)]
      exact hopen line hline

namespace Failure

section

variable (f : Failure) (source : List Char)

/-! ## The rows -/

/-- The number of the line that a failure is on, as a report writes it. -/
def lineNumber : List Char :=
  (toString (f.lineColumn source).1).toList

def gutterRow : List Char :=
  List.replicate ((f.lineNumber source).length + 1) ' ' ++ ['|']

def lineLabel : List Char :=
  f.lineNumber source ++ [' ', '|', ' ']

def sourceRow : List Char :=
  let point := LinePoint.find source f.position.offset.toNat
  f.lineLabel source ++ dropBlankEnd (point.text.dropWhile isIndent)

def caretRow : List Char :=
  let point := LinePoint.find source f.position.offset.toNat
  f.gutterRow source ++ ' ' :: List.replicate (point.column - byteLength (point.text.takeWhile isIndent)) '-' ++ ['^']

def reportRows : List (List Char) :=
  [f.headline.toList, ['-', '>', ' '] ++ f.position.file.toList, f.gutterRow source, f.sourceRow source,
    f.caretRow source]

theorem report_eq_rows : (f.report source).toList = (f.reportRows source).flatMap (· ++ ['\n']) := by
  have hlength (n : Nat) : n.repr.length = (Nat.toDigits 10 n).length := by
    rw [← String.length_toList, Nat.toList_repr]
  simp [report, reportRows, gutterRow, sourceRow, caretRow, lineLabel, lineNumber, lineColumn, fill, hlength]

/-- The number of a line is written with digits alone. -/
theorem isDigit_lineNumber : ∀ c ∈ f.lineNumber source, c.isDigit = true := by
  intro c member
  have hdigits : f.lineNumber source = Nat.toDigits 10 (f.lineColumn source).1 := Nat.toList_repr
  exact Nat.isDigit_of_mem_toDigits (by decide) (by decide) (hdigits ▸ member)

theorem notMem_lineNumber {c : Char} (hc : c.isDigit = false) : c ∉ f.lineNumber source := fun member => by
  rw [f.isDigit_lineNumber source c member] at hc
  cases hc

theorem notMem_rows : '\n' ∉ f.gutterRow source ∧ '\n' ∉ f.sourceRow source ∧ '\n' ∉ f.caretRow source := by
  have hnumber := f.notMem_lineNumber source (c := '\n') rfl
  have hshown : ∃ text, (LinePoint.find source f.position.offset.toNat).text = firstLine text := by
    obtain ⟨front, back, count, rfl, hoffset, hcount⟩ := exists_place source f.position.offset.toNat
    rw [hoffset, LinePoint.find_append hcount]
    exact ⟨_, rfl⟩
  obtain ⟨text, htext⟩ := hshown
  refine ⟨?_, ?_, ?_⟩
  · simp [gutterRow]
  · simp [sourceRow, lineLabel, hnumber, htext, notMem_shown]
  · simp [caretRow, gutterRow]

/-! ## Bars -/

/-- The bars of the last three rows are in one column. -/
theorem bars : (f.gutterRow source).idxOf '|' = (f.lineNumber source).length + 1
    ∧ (f.sourceRow source).idxOf '|' = (f.lineNumber source).length + 1
    ∧ (f.caretRow source).idxOf '|' = (f.lineNumber source).length + 1 := by
  have hnumber := f.notMem_lineNumber source (c := '|') rfl
  refine ⟨?_, ?_, ?_⟩
  · simp [gutterRow, List.idxOf_append]
  · simp [sourceRow, lineLabel, List.idxOf_append, hnumber, Nat.add_comm]
  · simp [caretRow, gutterRow, List.idxOf_append]

end

section

variable {f : Failure} {source : List Char}

/-! ## Lines -/

/-- The lines of a report are its rows exactly if the headline is one line. -/
theorem lines_report (hfile : '\n' ∉ f.position.file.toList) :
    lines (f.report source).toList = (f.reportRows source).map (· ++ ['\n']) ↔ '\n' ∉ f.headline.toList := by
  obtain ⟨hgutter, hsource, hcaret⟩ := f.notMem_rows source
  have hname : '\n' ∉ ['-', '>', ' '] ++ f.position.file.toList := by simpa using hfile
  rw [report_eq_rows]
  constructor
  · -- There are as many lines as line feeds, so five; all but one of them stand behind the rows.
    intro hlines
    have hcount := congrArg List.length hlines
    rw [length_lines (lastLine_rows _)] at hcount
    simp only [reportRows, List.flatMap_cons, List.flatMap_nil, List.append_nil, List.count_append,
      List.count_singleton_self, List.count_eq_zero_of_not_mem hname, List.count_eq_zero_of_not_mem hgutter,
      List.count_eq_zero_of_not_mem hsource, List.count_eq_zero_of_not_mem hcaret, List.length_map, List.length_cons,
      List.length_nil] at hcount
    exact List.count_eq_zero.mp (by omega)
  · intro hheadline
    refine lines_rows ?_
    simp only [reportRows, List.forall_mem_cons]
    exact ⟨hheadline, hname, hgutter, hsource, hcaret, nofun⟩

/-! ## The arrow -/

theorem isBlank_of_isIndent {c : Char} (h : isIndent c = true) : isBlank c = true := by
  simp only [isIndent, Bool.or_eq_true, decide_eq_true_eq] at h
  rcases h with rfl | rfl <;> rfl

/-- A failure that points at a character which is not blank: its arrow ends under the character exactly if all
characters in front of it on the line, as it is shown, are single bytes. -/
theorem caretRow_points_at {front : List Char} (back : List Char) {c : Char} (hc : isBlank c = false)
    (hoffset : f.position.offset.toNat = byteLength front) :
    ∃ tail, f.sourceRow (front ++ c :: back)
        = f.lineLabel (front ++ c :: back) ++ (lastLine front).dropWhile isIndent ++ c :: tail
      ∧ ((f.caretRow (front ++ c :: back)).idxOf '^'
          = (f.lineLabel (front ++ c :: back) ++ (lastLine front).dropWhile isIndent).length
        ↔ ∀ d ∈ (lastLine front).dropWhile isIndent, d.utf8Size = 1) := by
  have hindent : isIndent c = false := by
    by_contra hspace
    rw [isBlank_of_isIndent (by simpa using hspace)] at hc
    cases hc
  have hfeed : c ≠ '\n' := fun h => absurd (h ▸ hc) (by decide)
  have hline : firstLine (lastLine front ++ c :: back) = lastLine front ++ c :: firstLine back := by
    rw [firstLine_append (notMem_lastLine front)]
    exact congrArg _ (@firstLine_append [c] (by simpa using Ne.symm hfeed) back)
  have hpoint := LinePoint.find_byteLength front (c :: back)
  rw [← hoffset, hline] at hpoint
  obtain ⟨tail, htail⟩ := dropBlankEnd_append hc ((lastLine front).dropWhile isIndent) (firstLine back)
  refine ⟨tail, ?_, ?_⟩
  · rw [sourceRow, hpoint, dropWhile_in_front hindent, htail, List.append_assoc]
  · -- The dashes count bytes, those of the line up to the character less the indentation that is not shown.
    have hdashes : byteLength (lastLine front) - byteLength ((lastLine front).takeWhile isIndent)
        = byteLength ((lastLine front).dropWhile isIndent) := by
      have hparts := congrArg byteLength (List.takeWhile_append_dropWhile (p := isIndent) (l := lastLine front))
      rw [byteLength_append] at hparts
      omega
    have hcaret : (f.caretRow (front ++ c :: back)).idxOf '^'
        = (f.lineNumber (front ++ c :: back)).length + 3 + byteLength ((lastLine front).dropWhile isIndent) := by
      simp only [caretRow, hpoint, takeWhile_in_front hindent, hdashes]
      simp [gutterRow, List.idxOf_append]
      omega
    rw [hcaret, ← byteLength_eq_length_iff, lineLabel]
    simp only [List.length_append, List.length_cons, List.length_nil]
    omega

end

end Failure

end WattFront
