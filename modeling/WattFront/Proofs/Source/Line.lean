import Mathlib.Data.List.DropRight
import WattFront.Failure.Report

/-! # Where an offset lies

The line of an offset is told by the text in front of it: each line feed there ends a line, and what stands
behind the last one is in front of the offset on its line. `LinePoint.find_append` says so for every offset that
is inside of a text or at its end.
-/

namespace WattFront

def lastLine (text : List Char) : List Char :=
  text.rtakeWhile (· ≠ '\n')

theorem lastLine_concat_feed (text : List Char) : lastLine (text ++ ['\n']) = [] :=
  List.rtakeWhile_concat_neg _ _ _ (by decide)

theorem lastLine_concat {c : Char} (hc : c ≠ '\n') (text : List Char) :
    lastLine (text ++ [c]) = lastLine text ++ [c] :=
  List.rtakeWhile_concat_pos _ _ _ (decide_eq_true hc)

theorem lastLine_append_feed (text line : List Char) : lastLine (text ++ '\n' :: line) = lastLine line := by
  induction line using List.reverseRecOn with
  | nil => exact lastLine_concat_feed text
  | append_singleton line c ih =>
    rw [← List.cons_append, ← List.append_assoc]
    by_cases hc : c = '\n'
    · rw [hc, lastLine_concat_feed, lastLine_concat_feed]
    · rw [lastLine_concat hc, lastLine_concat hc, ih]

theorem lastLine_of_notMem {text : List Char} (h : '\n' ∉ text) : lastLine text = text := by
  rw [lastLine, List.rtakeWhile_eq_self_iff]
  exact fun c member => decide_eq_true fun hc => h (hc ▸ member)

theorem lastLine_append {rest : List Char} (h : '\n' ∉ rest) (text : List Char) :
    lastLine (text ++ rest) = lastLine text ++ rest := by
  induction rest using List.reverseRecOn with
  | nil => rw [List.append_nil, List.append_nil]
  | append_singleton rest c ih =>
    rw [List.mem_append, List.mem_singleton, not_or] at h
    rw [← List.append_assoc, lastLine_concat (Ne.symm h.2), ih h.1, List.append_assoc]

theorem firstLine_append {line : List Char} (h : '\n' ∉ line) (rest : List Char) :
    firstLine (line ++ rest) = line ++ firstLine rest := by
  have hall : ∀ c ∈ line, decide (c ≠ '\n') = true := fun c member => decide_eq_true fun hc => h (hc ▸ member)
  rw [firstLine, List.takeWhile_append_of_pos hall, List.dropWhile_append_of_pos hall, List.append_assoc, firstLine]

theorem firstLine_of_notMem {line : List Char} (h : '\n' ∉ line) : firstLine line = line := by
  have hline := firstLine_append h []
  rwa [List.append_nil, show firstLine [] = [] from rfl, List.append_nil] at hline

theorem firstLine_ended {line : List Char} (h : '\n' ∉ line) (rest : List Char) :
    firstLine (line ++ '\n' :: rest) = line ++ ['\n'] := by
  rw [firstLine_append h]
  rfl

theorem notMem_lastLine (text : List Char) : '\n' ∉ lastLine text := fun member => by
  have hline := List.mem_rtakeWhile_imp member
  simp at hline

/-- The last line is empty exactly if the text is empty or ends with a line feed. -/
theorem lastLine_eq_nil_iff {text : List Char} : lastLine text = [] ↔ text = [] ∨ text.getLast? = some '\n' := by
  induction text using List.reverseRecOn with
  | nil => simp [lastLine]
  | append_singleton text c _ =>
    by_cases hc : c = '\n'
    · simp [hc, lastLine_concat_feed]
    · simp [hc, lastLine_concat hc]

/-- A text is what stands up to its last line feed, and a last line without one. -/
theorem exists_last_line (text : List Char) :
    ∃ above last, text = above ++ last ∧ lastLine above = [] ∧ '\n' ∉ last := by
  induction text using List.reverseRecOn with
  | nil => exact ⟨[], [], rfl, rfl, List.not_mem_nil⟩
  | append_singleton text c ih =>
    by_cases hc : c = '\n'
    · exact ⟨text ++ [c], [], (List.append_nil _).symm, hc ▸ lastLine_concat_feed text, List.not_mem_nil⟩
    · obtain ⟨above, last, rfl, habove, hlast⟩ := ih
      exact ⟨above, last ++ [c], List.append_assoc .., habove, by simpa [hlast] using Ne.symm hc⟩

namespace LinePoint

/-- A walk that has passed a part of a line goes on over a text. -/
theorem walk_append {passed front back : List Char} {number count : Nat} (hpassed : '\n' ∉ passed)
    (hcount : ∀ c ∈ back.head?, count < c.utf8Size) :
    walk number (passed ++ (front ++ back)) (byteLength passed) (front ++ back) (byteLength front + count)
      = ⟨number + front.count '\n', firstLine (lastLine (passed ++ front) ++ back),
          byteLength (lastLine (passed ++ front)) + if back = [] then 0 else count⟩ := by
  -- By induction on the text, which moves into what has been passed until a line feed ends the line.
  induction front generalizing passed number with
  | nil =>
    rw [List.append_nil, lastLine_of_notMem hpassed]
    cases back with
    | nil => rfl
    | cons c back =>
      have hc : count < c.utf8Size := hcount c rfl
      simp [walk, hc]
  | cons c front ih =>
    have hge : ¬ byteLength (c :: front) + count < c.utf8Size := by
      rw [byteLength_cons]
      omega
    have hless : byteLength (c :: front) + count - c.utf8Size = byteLength front + count := by
      rw [byteLength_cons]
      omega
    rw [List.cons_append, walk, if_neg hge, hless]
    by_cases hc : c = '\n'
    · have hline := @ih [] (number + 1) List.not_mem_nil
      simp only [List.nil_append, byteLength_nil] at hline
      rw [if_pos hc, hline, hc, lastLine_append_feed, List.count_cons_self, Nat.add_right_comm, Nat.add_assoc]
    · have hfurther : '\n' ∉ passed ++ [c] := by simpa [hpassed] using fun h => hc h.symm
      have hline := @ih (passed ++ [c]) number hfurther
      simp only [List.append_assoc, List.singleton_append, byteLength_append, byteLength_cons, byteLength_nil,
        Nat.add_zero] at hline
      rw [if_neg hc, hline, List.count_cons_of_ne hc]

/-- An offset in the first character behind a part of a text, or at the end of the text. -/
theorem find_append {front back : List Char} {count : Nat} (hcount : ∀ c ∈ back.head?, count < c.utf8Size) :
    find (front ++ back) (byteLength front + count)
      = ⟨1 + front.count '\n', firstLine (lastLine front ++ back),
          byteLength (lastLine front) + if back = [] then 0 else count⟩ :=
  walk_append List.not_mem_nil hcount

/-- An offset at the start of a character, or at the end of the text. -/
theorem find_byteLength (front back : List Char) :
    find (front ++ back) (byteLength front)
      = ⟨1 + front.count '\n', firstLine (lastLine front ++ back), byteLength (lastLine front)⟩ := by
  have hpoint := @find_append front back 0 fun c _ => c.utf8Size_pos
  rwa [Nat.add_zero, ite_self, Nat.add_zero] at hpoint

end LinePoint

/-- The line and column of a failure are told by the text in front of it. -/
theorem Failure.lineColumn_of_front {f : Failure} {front : List Char} (h : f.position.offset.toNat = byteLength front)
    (back : List Char) :
    f.lineColumn (front ++ back) = (1 + front.count '\n', byteLength (lastLine front) + 1) := by
  rw [lineColumn, h, LinePoint.find_byteLength]

end WattFront
