/-! # Escapes in string literals

Between its single quotes a string literal writes some characters as a backslash and a letter.

* `Escape.decode` reads the text between the quotes. A backslash in front of a character that needs
  no escape stays in the value, and so does that character.
* `Escape.encode` writes a value so that the literal stays on one line.

`decode_encode` says that a written value is read back.
-/

namespace WattFront.Escape

/-- The character that a backslash and this letter stand for. -/
def meaning? : Char → Option Char
  | 'n' => some '\n'
  | 't' => some '\t'
  | 'r' => some '\r'
  | '0' => some '\x00'
  | '\\' => some '\\'
  | '\x27' => some '\x27'
  | '\x22' => some '\x22'
  | _ => none

/-- The value of the text between the quotes of a literal. -/
def decode : List Char → List Char
  | '\\' :: c :: cs =>
    match meaning? c with
    | some d => d :: decode cs
    | none => '\\' :: c :: decode cs
  | c :: cs => c :: decode cs
  | [] => []

def encodeChar : Char → List Char
  | '\x27' => ['\\', '\x27']
  | '\\' => ['\\', '\\']
  | '\n' => ['\\', 'n']
  | '\t' => ['\\', 't']
  | '\r' => ['\\', 'r']
  | '\x00' => ['\\', '0']
  | c => [c]

/-- The written form of a value, to stand between quotes. -/
def encode (value : List Char) : List Char :=
  value.flatMap encodeChar

def literal (value : String) : String :=
  "'" ++ String.ofList (encode value.toList) ++ "'"

/-- The written form of a character reads as that character, whatever follows. -/
theorem decode_encodeChar_append (c : Char) (cs : List Char) :
    decode (encodeChar c ++ cs) = c :: decode cs := by
  unfold encodeChar
  split
  case h_7 => simp_all [decode]
  all_goals simp [decode, meaning?]

/-- The written form of a value reads as that value. -/
theorem decode_encode (value : List Char) : decode (encode value) = value := by
  induction value with
  | nil => rfl
  | cons c cs ih =>
    have happend : encode (c :: cs) = encodeChar c ++ encode cs := by simp [encode]
    rw [happend, decode_encodeChar_append, ih]

end WattFront.Escape
