import Mathlib.Algebra.Group.Nat.Defs
import WattFront.Proofs.Source.Line

/-! # Line feeds behind carriage returns

`withReturns` puts a carriage return in front of each line feed of a text. Every line is the same then but for
the carriage return at its end, so offsets move on by one byte for each line feed in front of them, while lines
and columns stay what they are.
-/

namespace WattFront

def withReturn (c : Char) : List Char :=
  if c = '\n' then ['\r', '\n'] else [c]

def withReturns (text : List Char) : List Char :=
  text.flatMap withReturn

@[simp] theorem withReturns_nil : withReturns [] = [] := rfl

@[simp] theorem withReturns_feed (text : List Char) :
    withReturns ('\n' :: text) = '\r' :: '\n' :: withReturns text := rfl

theorem withReturns_cons {c : Char} (hc : c ≠ '\n') (text : List Char) :
    withReturns (c :: text) = c :: withReturns text := by
  rw [withReturns, List.flatMap_cons, withReturn, if_neg hc]
  rfl

@[simp] theorem withReturns_append (text rest : List Char) :
    withReturns (text ++ rest) = withReturns text ++ withReturns rest :=
  List.flatMap_append

theorem withReturns_of_notMem {text : List Char} (h : '\n' ∉ text) : withReturns text = text := by
  induction text with
  | nil => rfl
  | cons c text ih =>
    rw [List.mem_cons, not_or] at h
    rw [withReturns_cons (Ne.symm h.1), ih h.2]

/-- The first character behind a text is the same, or it is a carriage return in place of a line feed. -/
theorem head?_withReturns {c : Char} {text : List Char} (h : c ∈ (withReturns text).head?) :
    c ∈ text.head? ∨ c = '\r' ∧ '\n' ∈ text.head? := by
  cases text with
  | nil => cases h
  | cons d text =>
    by_cases hd : d = '\n'
    · subst hd
      cases h
      exact .inr ⟨rfl, rfl⟩
    · rw [withReturns_cons hd] at h
      exact .inl h

/-! ## Offsets, lines and columns -/

theorem byteLength_withReturns (text : List Char) :
    byteLength (withReturns text) = byteLength text + text.count '\n' := by
  induction text with
  | nil => rfl
  | cons c text ih =>
    by_cases hc : c = '\n'
    · subst hc
      have hreturn : '\r'.utf8Size = 1 := by decide
      simp only [withReturns_feed, byteLength_cons, ih, List.count_cons_self, hreturn]
      omega
    · rw [withReturns_cons hc, byteLength_cons, byteLength_cons, ih, List.count_cons_of_ne hc, Nat.add_assoc]

@[simp] theorem count_withReturns (text : List Char) : (withReturns text).count '\n' = text.count '\n' := by
  induction text with
  | nil => rfl
  | cons c text ih =>
    by_cases hc : c = '\n'
    · subst hc
      rw [withReturns_feed, List.count_cons_of_ne (by decide), List.count_cons_self, List.count_cons_self, ih]
    · rw [withReturns_cons hc, List.count_cons_of_ne hc, List.count_cons_of_ne hc, ih]

@[simp] theorem lastLine_withReturns (text : List Char) : lastLine (withReturns text) = lastLine text := by
  induction text using List.reverseRecOn with
  | nil => rfl
  | append_singleton text c ih =>
    rw [withReturns_append]
    by_cases hc : c = '\n'
    · subst hc
      rw [withReturns_feed, withReturns_nil, lastLine_concat_feed, List.append_cons, lastLine_concat_feed]
    · rw [withReturns_cons hc, withReturns_nil, lastLine_concat hc, lastLine_concat hc, ih]

/-- Where a position of a text stands in the text with carriage returns: one byte further on for each line in
front of its own. -/
def Position.amongReturns (source : List Char) (p : Position) : Position :=
  let offset := p.offset.toNat
  .atByte (offset + ((LinePoint.find source offset).number - 1)) p.file

theorem Position.amongReturns_atByte {front back : List Char} (hsize : byteLength (front ++ back) < 2 ^ 32)
    (file : String) :
    (atByte (byteLength front) file).amongReturns (front ++ back)
      = atByte (byteLength (withReturns front)) file := by
  have hoffset : (atByte (byteLength front) file).offset.toNat = byteLength front := by
    rw [byteLength_append] at hsize
    exact UInt32.toNat_ofNat_of_lt' (Nat.lt_of_le_of_lt (Nat.le_add_right _ _) hsize)
  rw [amongReturns, hoffset, LinePoint.find_byteLength, byteLength_withReturns, Nat.add_sub_cancel_left]
  rfl

/-- A failure at the start of a character, or at the end of the text, keeps its line and column. -/
theorem Failure.lineColumn_withReturns {f g : Failure} {front back : List Char}
    (hf : f.position.offset.toNat = byteLength front)
    (hg : g.position.offset.toNat = byteLength (withReturns front)) :
    f.lineColumn (front ++ back) = g.lineColumn (withReturns (front ++ back)) := by
  rw [lineColumn_of_front hf, withReturns_append, lineColumn_of_front hg, count_withReturns, lastLine_withReturns]

end WattFront
