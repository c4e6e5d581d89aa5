/-! # Texts measured in bytes

Offsets, columns and lengths count the bytes of the UTF-8 form of a text, while the text itself is
handled as a list of characters. This file holds the two functions that go between the views:

* `byteLength` — how many bytes a text takes;
* `dropBytes?` — the text behind a number of bytes, if a character starts there.

`dropBytes?_append` says that the second undoes the first.
-/

namespace WattFront

/-- The number of bytes of a text in UTF-8. -/
def byteLength : List Char → Nat
  | [] => 0
  | c :: cs => c.utf8Size + byteLength cs

@[simp] theorem byteLength_nil : byteLength [] = 0 := rfl

@[simp] theorem byteLength_cons (c : Char) (cs : List Char) :
    byteLength (c :: cs) = c.utf8Size + byteLength cs := rfl

@[simp] theorem byteLength_append (as bs : List Char) :
    byteLength (as ++ bs) = byteLength as + byteLength bs := by
  induction as with
  | nil => simp
  | cons a as ih => simp [ih, Nat.add_assoc]

/-- The text that starts `count` bytes into a text. There is none past the end, and none inside a
character of several bytes. -/
def dropBytes? (count : Nat) : List Char → Option (List Char)
  | [] => if count = 0 then some [] else none
  | c :: cs =>
    if count = 0 then some (c :: cs)
    else if c.utf8Size ≤ count then dropBytes? (count - c.utf8Size) cs
    else none

/-- Dropping as many bytes as the first part of a text takes leaves the second part. -/
theorem dropBytes?_append (as bs : List Char) : dropBytes? (byteLength as) (as ++ bs) = some bs := by
  induction as with
  | nil => cases bs <;> simp [dropBytes?]
  | cons a as ih =>
    have pos : 0 < a.utf8Size := a.utf8Size_pos
    simp only [List.cons_append, byteLength_cons, dropBytes?]
    rw [if_neg (by omega), if_pos (by omega), Nat.add_sub_cancel_left, ih]

end WattFront
