import Mathlib.Data.List.DropRight
import WattFront.Proofs.Source.Line

/-! # Lines among the bytes of a text

Offsets count bytes. A line feed is one byte, and this byte does not occur in any other character, so the lines of
a text can be told from its bytes alone: `count_utf8`, `lineStart_utf8` and `utf8_firstLine` say how many line
feeds there are, where the last line starts and where the first one ends.

An offset may lie inside a character of several bytes. `exists_place` finds that character, and `take_utf8` says
that the bytes in front of the offset have no further line feeds then.
-/

namespace WattFront

def utf8 (text : List Char) : List UInt8 :=
  text.flatMap String.utf8EncodeChar

def feedByte : UInt8 := 10

@[simp] theorem utf8_nil : utf8 [] = [] := rfl

@[simp] theorem utf8_cons (c : Char) (text : List Char) : utf8 (c :: text) = String.utf8EncodeChar c ++ utf8 text := rfl

@[simp] theorem utf8_append (text rest : List Char) : utf8 (text ++ rest) = utf8 text ++ utf8 rest :=
  List.flatMap_append

@[simp] theorem utf8_feed : String.utf8EncodeChar '\n' = [feedByte] := rfl

@[simp] theorem length_utf8 (text : List Char) : (utf8 text).length = byteLength text := by
  induction text with
  | nil => rfl
  | cons c text ih => simp [ih]

/-- No character but a line feed has the byte of one. -/
theorem feedByte_notMem_encode {c : Char} (hc : c ≠ '\n') : feedByte ∉ String.utf8EncodeChar c := by
  intro member
  have hcode : c.val.toNat ≠ 10 := fun h => hc (Char.ext (UInt32.toNat_inj.mp h))
  -- A character of one byte is that byte; all bytes of longer characters are at least 128.
  simp only [String.utf8EncodeChar, feedByte] at member
  split_ifs at member <;>
    simp only [List.mem_cons, List.not_mem_nil, or_false, ← UInt8.toNat_inj, UInt8.toNat_ofNat', UInt8.reduceToNat]
      at member <;>
    omega

theorem count_utf8 (text : List Char) : (utf8 text).count feedByte = text.count '\n' := by
  induction text with
  | nil => rfl
  | cons c text ih =>
    rw [utf8_cons, List.count_append, ih]
    by_cases hc : c = '\n'
    · rw [hc, List.count_cons_self, utf8_feed, List.count_singleton_self, Nat.add_comm]
    · rw [List.count_cons_of_ne hc, List.count_eq_zero_of_not_mem (feedByte_notMem_encode hc), Nat.zero_add]

theorem feedByte_notMem_utf8 {text : List Char} (h : '\n' ∉ text) : feedByte ∉ utf8 text := by
  rw [← List.count_eq_zero, count_utf8, List.count_eq_zero]
  exact h

/-! ## The last line -/

/-- Where the last line starts, which is behind the last line feed. -/
def lineStart (bytes : List UInt8) : Nat :=
  (bytes.rdropWhile (· ≠ feedByte)).length

theorem lineStart_append_feed (bytes : List UInt8) : lineStart (bytes ++ [feedByte]) = bytes.length + 1 := by
  rw [lineStart, List.rdropWhile_concat_neg _ _ _ (by decide), List.length_append, List.length_singleton]

theorem lineStart_append (bytes : List UInt8) {rest : List UInt8} (h : feedByte ∉ rest) :
    lineStart (bytes ++ rest) = lineStart bytes := by
  induction rest using List.reverseRecOn with
  | nil => rw [List.append_nil]
  | append_singleton rest b ih =>
    rw [List.mem_append, List.mem_singleton, not_or] at h
    have hdrop : (bytes ++ rest ++ [b]).rdropWhile (· ≠ feedByte) = (bytes ++ rest).rdropWhile (· ≠ feedByte) :=
      List.rdropWhile_concat_pos _ _ _ (decide_eq_true (Ne.symm h.2))
    rw [← ih h.1, ← List.append_assoc, lineStart, hdrop, lineStart]

/-- Behind a text that ends with a line feed the next line starts. -/
theorem lineStart_utf8 {text : List Char} (hended : lastLine text = []) : lineStart (utf8 text) = byteLength text := by
  induction text using List.reverseRecOn with
  | nil => rfl
  | append_singleton text c _ =>
    obtain rfl : c = '\n' := by simpa using lastLine_eq_nil_iff.mp hended
    rw [utf8_append, utf8_cons, utf8_nil, List.append_nil, utf8_feed, lineStart_append_feed, length_utf8,
      byteLength_append]
    rfl

/-! ## The first line -/

def firstLineBytes (bytes : List UInt8) : List UInt8 :=
  bytes.takeWhile (· ≠ feedByte) ++ (bytes.dropWhile (· ≠ feedByte)).take 1

theorem utf8_firstLine (text : List Char) : utf8 (firstLine text) = firstLineBytes (utf8 text) := by
  induction text with
  | nil => rfl
  | cons c text ih =>
    by_cases hc : c = '\n'
    · subst hc
      simp [firstLine, firstLineBytes]
    · have hbytes : ∀ b ∈ String.utf8EncodeChar c, decide (b ≠ feedByte) = true := fun b member =>
        decide_eq_true fun hb => feedByte_notMem_encode hc (hb ▸ member)
      have hchar : firstLine (c :: text) = c :: firstLine text :=
        @firstLine_append [c] (by simpa using Ne.symm hc) text
      rw [hchar, utf8_cons, ih, utf8_cons, firstLineBytes, firstLineBytes, List.takeWhile_append_of_pos hbytes,
        List.dropWhile_append_of_pos hbytes, List.append_assoc]

/-! ## Offsets -/

/-- An offset lies in a character of a text, or it lies at or past the end. -/
theorem exists_place (text : List Char) (offset : Nat) :
    ∃ front back count, text = front ++ back ∧ offset = byteLength front + count
      ∧ ∀ c ∈ back.head?, count < c.utf8Size := by
  induction text generalizing offset with
  | nil => exact ⟨[], [], offset, rfl, by simp, nofun⟩
  | cons c text ih =>
    by_cases h : offset < c.utf8Size
    · exact ⟨[], c :: text, offset, rfl, by simp, by simpa using h⟩
    · obtain ⟨front, back, count, rfl, hoffset, hcount⟩ := ih (offset - c.utf8Size)
      refine ⟨c :: front, back, count, rfl, ?_, hcount⟩
      rw [byteLength_cons]
      omega

/-- The bytes in front of an offset are those of the characters in front of it, and some that are no line feeds. -/
theorem take_utf8 (front : List Char) {back : List Char} {count : Nat} (hcount : ∀ c ∈ back.head?, count < c.utf8Size) :
    ∃ rest, (utf8 (front ++ back)).take (byteLength front + count) = utf8 front ++ rest ∧ feedByte ∉ rest
      ∧ rest.length = if back = [] then 0 else count := by
  have htake : (utf8 (front ++ back)).take (byteLength front + count) = utf8 front ++ (utf8 back).take count := by
    rw [utf8_append, ← length_utf8, List.take_length_add_append]
  cases back with
  | nil => exact ⟨[], by rw [htake, utf8_nil, List.take_nil], List.not_mem_nil, rfl⟩
  | cons c back =>
    have hc : count < c.utf8Size := hcount c rfl
    have hfirst : (utf8 (c :: back)).take count = (String.utf8EncodeChar c).take count := by
      rw [utf8_cons, List.take_append_of_le_length (by simpa using Nat.le_of_lt hc)]
    have hlength : ((String.utf8EncodeChar c).take count).length = count := by
      rw [List.length_take, String.length_utf8EncodeChar, Nat.min_eq_left (Nat.le_of_lt hc)]
    refine ⟨(String.utf8EncodeChar c).take count, hfirst ▸ htake, fun member => ?_, hlength⟩
    by_cases hfeed : c = '\n'
    · subst hfeed
      rw [Nat.lt_one_iff.mp hc] at member
      cases member
    · exact feedByte_notMem_encode hfeed (List.mem_of_mem_take member)

end WattFront
