import Mathlib.Algebra.GroupWithZero.Nat
import WattFront.Proofs.Source.Encoding

/-! # Looking an offset up line by line

`LinePoint.lookup?` goes through the lines of a text in turn and ends in one of three ways: at the line that the
offset is on, behind the last line, or, if neither happens, with no answer. It always has an answer, and this is
the point that `LinePoint.find` walks to (`lookup?_eq_find`).

The point is told by the bytes in front of the offset alone: `find_eq_place` reads number, text and column off
them, and `lineColumn_lt` says that line and column grow with the offset.
-/

namespace WattFront

/-! ## Lines -/

/-- The lines of a text, each with the line feed that ends it. Nothing is behind a line feed at the end. -/
def lines : List Char → List (List Char)
  | [] => []
  | c :: cs =>
    if c = '\n' then [c] :: lines cs
    else
      match lines cs with
      | [] => [[c]]
      | line :: rest => (c :: line) :: rest

@[simp] theorem lines_nil : lines [] = [] := rfl

theorem lines_unended {line : List Char} (hline : '\n' ∉ line) (hne : line ≠ []) : lines line = [line] := by
  induction line with
  | nil => exact absurd rfl hne
  | cons c line ih =>
    rw [List.mem_cons, not_or] at hline
    rw [lines, if_neg (Ne.symm hline.1)]
    cases line with
    | nil => rfl
    | cons d line => rw [ih hline.2 (List.cons_ne_nil d line)]

theorem lines_ended {line : List Char} (hline : '\n' ∉ line) (rest : List Char) :
    lines (line ++ '\n' :: rest) = (line ++ ['\n']) :: lines rest := by
  induction line with
  | nil => rw [List.nil_append, lines, if_pos rfl, List.nil_append]
  | cons c line ih =>
    rw [List.mem_cons, not_or] at hline
    rw [List.cons_append, lines, if_neg (Ne.symm hline.1), ih hline.2, List.cons_append]

/-- A text is empty, or one line without a line feed, or a line with its line feed and a text behind it. -/
@[elab_as_elim]
theorem line_induction {motive : List Char → Prop} (nil : motive [])
    (unended : ∀ line, '\n' ∉ line → line ≠ [] → motive line)
    (ended : ∀ line rest, '\n' ∉ line → motive rest → motive (line ++ '\n' :: rest)) (text : List Char) :
    motive text := by
  have behind : ∀ line, '\n' ∉ line → motive (line ++ text) := by
    induction text with
    | nil =>
      intro line hline
      rw [List.append_nil]
      by_cases hne : line = []
      · exact hne ▸ nil
      · exact unended line hline hne
    | cons c text ih =>
      intro line hline
      by_cases hc : c = '\n'
      · exact hc ▸ ended line text hline (ih [] List.not_mem_nil)
      · rw [List.append_cons]
        exact ih (line ++ [c]) (by simpa [hline] using Ne.symm hc)
  exact behind [] List.not_mem_nil

/-- The lines of a text that ends with a line feed come first in every longer text. -/
theorem lines_append {text : List Char} (hended : lastLine text = []) (rest : List Char) :
    lines (text ++ rest) = lines text ++ lines rest := by
  induction text using line_induction with
  | nil => rfl
  | unended line hline hne => exact absurd (lastLine_of_notMem hline ▸ hended) hne
  | ended line text hline ih =>
    rw [lastLine_append_feed] at hended
    rw [List.append_assoc, List.cons_append, lines_ended hline, lines_ended hline, ih hended, List.cons_append]

theorem length_lines {text : List Char} (hended : lastLine text = []) : (lines text).length = text.count '\n' := by
  induction text using line_induction with
  | nil => rfl
  | unended line hline hne => exact absurd (lastLine_of_notMem hline ▸ hended) hne
  | ended line text hline ih =>
    rw [lastLine_append_feed] at hended
    rw [lines_ended hline, List.length_cons, ih hended, List.count_append, List.count_eq_zero_of_not_mem hline,
      Nat.zero_add, List.count_cons_self]

theorem sum_lines (text : List Char) : ((lines text).map byteLength).sum = byteLength text := by
  induction text using line_induction with
  | nil => rfl
  | unended line hline hne => simp [lines_unended hline hne]
  | ended line text hline ih => simp [lines_ended hline, ih, Nat.add_assoc]

/-! ## The lookup -/

namespace LinePoint

/-- Goes through the lines that are left of a source. `number` and `start` say which line comes next and where it
starts, `last` is the end of the line before it. -/
def seek (source : List Char) (offset number start : Nat) (last : Option LinePoint) :
    List (List Char) → Option LinePoint
  | [] =>
    if byteLength source ≤ offset then
      if source = [] ∨ source.getLast? = some '\n' then some ⟨number, [], 0⟩ else last
    else none
  | line :: rest =>
    if start ≤ offset ∧ offset < start + byteLength line then some ⟨number, line, offset - start⟩
    else
      seek source offset (number + 1) (start + byteLength line)
        (some ⟨number, line, byteLength (line.rdropWhile (· = '\n'))⟩) rest

def lookup? (source : List Char) (offset : Nat) : Option LinePoint :=
  seek source offset 1 0 none (lines source)

/-- An offset in a line that stands behind complete lines. -/
theorem find_in_line {above line rest : List Char} {offset : Nat} (habove : lastLine above = [])
    (hline : '\n' ∉ line.dropLast) (hfirst : firstLine (line ++ rest) = line) (hge : byteLength above ≤ offset)
    (hlt : offset < byteLength above + byteLength line) :
    find (above ++ (line ++ rest)) offset = ⟨1 + above.count '\n', line, offset - byteLength above⟩ := by
  obtain ⟨front, back, count, rfl, hoffset, hcount⟩ := exists_place line (offset - byteLength above)
  cases back with
  | nil =>
    rw [List.append_nil] at hlt
    omega
  | cons c back =>
    have hfront : '\n' ∉ front := fun member => hline <| by
      rw [List.dropLast_append_of_ne_nil (List.cons_ne_nil c back)]
      exact List.mem_append_left _ member
    have hlast : lastLine (above ++ front) = front := by rw [lastLine_append hfront, habove, List.nil_append]
    have hpoint := @find_append (above ++ front) (c :: (back ++ rest)) count hcount
    have hsource : above ++ front ++ c :: (back ++ rest) = above ++ (front ++ c :: back ++ rest) := by
      simp only [List.append_assoc, List.cons_append]
    have hplace : byteLength (above ++ front) + count = offset := by
      rw [byteLength_append]
      omega
    have hshown : front ++ c :: (back ++ rest) = front ++ c :: back ++ rest := by
      rw [List.append_assoc, List.cons_append]
    rw [hsource, hplace, hlast, hshown, hfirst, List.count_append, List.count_eq_zero_of_not_mem hfront,
      Nat.add_zero, if_neg (List.cons_ne_nil c _), ← hoffset] at hpoint
    exact hpoint

/-- An offset behind the last line, or at its end. -/
theorem find_at_end {source : List Char} {offset : Nat} (h : byteLength source ≤ offset) :
    find source offset = ⟨1 + source.count '\n', firstLine (lastLine source), byteLength (lastLine source)⟩ := by
  have hpoint := @find_append source [] (offset - byteLength source) nofun
  rwa [List.append_nil, List.append_nil, Nat.add_sub_cancel' h, if_pos rfl, Nat.add_zero] at hpoint

/-- Going through the lines behind a text that ends with a line feed finds the offset, if it is not in that text. -/
theorem seek_lines {above below : List Char} {offset : Nat} (habove : lastLine above = [])
    (hge : byteLength above ≤ offset) (last : Option LinePoint) :
    seek (above ++ below) offset (1 + above.count '\n') (byteLength above) last (lines below)
      = some (find (above ++ below) offset) := by
  -- By induction on the lines below. A line with its line feed is passed by moving it above.
  induction below using line_induction generalizing above last with
  | nil =>
    rw [List.append_nil, find_at_end hge, habove]
    have hend : above = [] ∨ above.getLast? = some '\n' := lastLine_eq_nil_iff.mp habove
    simp only [lines_nil, seek, if_pos hge, if_pos hend]
    rfl
  | unended line hline hne =>
    rw [lines_unended hline hne, seek]
    split_ifs with hin
    · have hpoint := @find_in_line above line [] offset habove (fun member => hline (List.dropLast_subset line member))
        (by rw [List.append_nil, firstLine_of_notMem hline]) hge hin.2
      rw [List.append_nil] at hpoint
      rw [hpoint]
    · have hpast : byteLength (above ++ line) ≤ offset := by
        rw [byteLength_append]
        omega
      have hlast : lastLine (above ++ line) = line := by rw [lastLine_append hline, habove, List.nil_append]
      have hopen : ¬ (above ++ line = [] ∨ (above ++ line).getLast? = some '\n') := by
        rwa [← lastLine_eq_nil_iff, hlast]
      have hwhole : line.rdropWhile (· = '\n') = line :=
        List.rdropWhile_eq_self_iff.mpr fun _ hfeed => hline (of_decide_eq_true hfeed ▸ List.getLast_mem hne)
      rw [seek, if_pos hpast, if_neg hopen, find_at_end hpast, hlast, hwhole, firstLine_of_notMem hline,
        List.count_append, List.count_eq_zero_of_not_mem hline, Nat.add_zero]
  | ended line rest hline ih =>
    rw [lines_ended hline, seek]
    have hsource : above ++ (line ++ '\n' :: rest) = above ++ (line ++ ['\n']) ++ rest := by simp
    split_ifs with hin
    · have hpoint := @find_in_line above (line ++ ['\n']) rest offset habove (by simpa using hline)
        (by rw [List.append_assoc, List.singleton_append, firstLine_ended hline]) hge hin.2
      rw [hsource, List.append_assoc, hpoint]
    · have habove' : lastLine (above ++ (line ++ ['\n'])) = [] := by
        rw [← List.append_assoc, lastLine_concat_feed]
      have hpast : byteLength (above ++ (line ++ ['\n'])) ≤ offset := by
        rw [byteLength_append]
        omega
      have hcount : 1 + (above ++ (line ++ ['\n'])).count '\n' = 1 + above.count '\n' + 1 := by
        rw [List.count_append, List.count_append, List.count_eq_zero_of_not_mem hline, List.count_singleton_self,
          Nat.zero_add, Nat.add_assoc]
      have hnext := ih habove' hpast
        (some ⟨1 + above.count '\n', line ++ ['\n'], byteLength ((line ++ ['\n']).rdropWhile (· = '\n'))⟩)
      rw [hcount, byteLength_append above] at hnext
      rw [hsource, hnext]

/-- The lookup finds every offset, and it finds the point that a walk to the offset ends at. -/
theorem lookup?_eq_find (source : List Char) (offset : Nat) : lookup? source offset = some (find source offset) :=
  @seek_lines [] source offset rfl (Nat.zero_le offset) none

/-! ## The point by the bytes in front of it -/

/-- The point of an offset, told by the bytes in front of it and behind it. -/
theorem find_eq_place {source : List Char} {offset p : Nat} (hp : p = min offset (utf8 source).length) :
    (find source offset).number = 1 + ((utf8 source).take p).count feedByte
      ∧ lineStart ((utf8 source).take p) + (find source offset).column = p
      ∧ utf8 (find source offset).text = firstLineBytes ((utf8 source).drop (lineStart ((utf8 source).take p)))
      ∧ (((lines source).take ((find source offset).number - 1)).map byteLength).sum
          = lineStart ((utf8 source).take p) := by
  obtain ⟨front, back, count, rfl, rfl, hcount⟩ := exists_place source offset
  obtain ⟨rest, htake, hrest, hlength⟩ := take_utf8 front hcount
  obtain ⟨above, last, rfl, habove, hlast⟩ := exists_last_line front
  have hbefore : (utf8 (above ++ last ++ back)).take p = utf8 above ++ (utf8 last ++ rest) := by
    rw [hp, ← List.take_eq_take_min, htake, utf8_append, List.append_assoc]
  have hp' : p = byteLength above + (byteLength last + rest.length) := by
    have hlengths := congrArg List.length hbefore
    simp only [List.length_take, List.length_append, length_utf8] at hlengths hp
    omega
  have hopen : feedByte ∉ utf8 last ++ rest := by simp [feedByte_notMem_utf8 hlast, hrest]
  have hfeeds : (above ++ last).count '\n' = above.count '\n' := by
    rw [List.count_append, List.count_eq_zero_of_not_mem hlast, Nat.add_zero]
  have hline : lastLine (above ++ last) = last := by rw [lastLine_append hlast, habove, List.nil_append]
  rw [hbefore, lineStart_append _ hopen, lineStart_utf8 habove, @find_append (above ++ last) back count hcount, hfeeds,
    hline]
  refine ⟨?_, ?_, ?_, ?_⟩
  · rw [List.count_append, count_utf8, List.count_eq_zero_of_not_mem hopen, Nat.add_zero]
  · rw [hp', hlength]
  · rw [utf8_firstLine, List.append_assoc, utf8_append above, ← length_utf8 above, List.drop_left]
  · rw [Nat.add_sub_cancel_left, List.append_assoc, lines_append habove, ← length_lines habove, List.take_left,
      sum_lines]

/-- Lines and columns grow with the offset. -/
theorem lineColumn_lt {source : List Char} {f g : Failure}
    (h : min f.position.offset.toNat (utf8 source).length < min g.position.offset.toNat (utf8 source).length) :
    Prod.Lex (· < ·) (· < ·) (f.lineColumn source) (g.lineColumn source) := by
  obtain ⟨hnumber, hcolumn, -⟩ := @find_eq_place source f.position.offset.toNat _ rfl
  obtain ⟨hnumber', hcolumn', -⟩ := @find_eq_place source g.position.offset.toNat _ rfl
  obtain ⟨between, hbetween⟩ := List.take_prefix_take_left (l := utf8 source) h.le
  rw [← hbetween] at hnumber' hcolumn'
  rw [List.count_append] at hnumber'
  simp only [Failure.lineColumn]
  by_cases hfeed : feedByte ∈ between
  · have hmore := List.count_pos_iff.mpr hfeed
    exact .left _ _ (by omega)
  · rw [List.count_eq_zero_of_not_mem hfeed] at hnumber'
    rw [lineStart_append _ hfeed] at hcolumn'
    rw [show (find source f.position.offset.toNat).number = (find source g.position.offset.toNat).number by omega]
    exact .right _ (by omega)

/-- The lookup answers every offset. With `p` bytes in front of it, the line number is told by the line feeds among
them, the column by the bytes behind the last one, and the line goes on from there up to the next line feed. The
lines above and the column make up all `p` bytes, and of two offsets the one further on comes later by line and
column. -/
theorem lookup_eq_place (source : List Char) (offset : UInt32) :
    ∃ point, lookup? source offset.toNat = some point ∧ find source offset.toNat = point
      ∧ let bytes := utf8 source
        let p := min offset.toNat bytes.length
        let start := lineStart (bytes.take p)
        point.number = 1 + (bytes.take p).count feedByte
          ∧ point.column = p - start
          ∧ utf8 point.text = firstLineBytes (bytes.drop start)
          ∧ (((lines source).take (point.number - 1)).map byteLength).sum + point.column = p
          ∧ ∀ f g : Failure, f.position.offset = offset → p < min g.position.offset.toNat bytes.length →
              Prod.Lex (· < ·) (· < ·) (f.lineColumn source) (g.lineColumn source) := by
  refine ⟨find source offset.toNat, lookup?_eq_find source offset.toNat, rfl, ?_⟩
  intro bytes p start
  obtain ⟨hnumber, hcolumn, htext, habove⟩ := @find_eq_place source offset.toNat p rfl
  refine ⟨hnumber, Nat.eq_sub_of_add_eq' hcolumn, htext, ?_, ?_⟩
  · rw [habove, hcolumn]
  · rintro f g rfl hlater
    exact lineColumn_lt hlater

/-- The last character of a second line is found there, and offsets past the end come later. -/
theorem lookup_eq_place_second_line :
    let source := ['é', '\n', 'a', 'b']
    let f : Failure := ⟨.unterminatedString, ⟨4, "main"⟩⟩
    let g : Failure := ⟨.unterminatedString, ⟨100, "main"⟩⟩
    lookup? source 4 = some ⟨2, ['a', 'b'], 1⟩ ∧ f.lineColumn source = (2, 2) ∧ g.lineColumn source = (2, 3)
      ∧ Prod.Lex (· < ·) (· < ·) (f.lineColumn source) (g.lineColumn source) := by
  intro source f g
  obtain ⟨_, -, -, -, -, -, -, hlater⟩ := lookup_eq_place source 4
  exact ⟨by decide, by decide, by decide, hlater f g rfl (by decide)⟩

end LinePoint

end WattFront
