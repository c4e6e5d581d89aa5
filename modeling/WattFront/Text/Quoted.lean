import WattFront.Text.Combining
import WattFront.Text.Printable

/-! # Quoted text

Messages show source text in double quotes, in a form in which every character can be told apart:
the double quote and the backslash are escaped, four control characters have short escapes, and any
other character that is not printable or would join its neighbour is written as its code point.
-/

namespace WattFront

/-- The written form of one character inside double quotes. -/
def quotedChar (c : Char) : List Char :=
  if c = '\x00' then ['\\', '0']
  else if c = '\t' then ['\\', 't']
  else if c = '\r' then ['\\', 'r']
  else if c = '\n' then ['\\', 'n']
  else if c = '\x22' ∨ c = '\\' then ['\\', c]
  else if isCombining c || !isPrintable c then
    ['\\', 'u', '\x7b'] ++ Nat.toDigits 16 c.toNat ++ ['\x7d']
  else [c]

def quoted (text : String) : String :=
  "\x22" ++ String.ofList (text.toList.flatMap quotedChar) ++ "\x22"

end WattFront
