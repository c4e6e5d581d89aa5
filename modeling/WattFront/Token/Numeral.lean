/-! # Numerals

A numeral is an optional sign and at least one decimal digit, and it denotes a signed 64-bit
integer: a numeral of a number outside that range has no value. The lexer produces numerals without
a sign only.
-/

namespace WattFront.Numeral

/-- The number that a list of decimal digits stands for; none for the empty list, nor if some
character is not a digit. -/
def digits? : List Char → Option Nat
  | [] => none
  | c :: cs =>
    if (c :: cs).all Char.isDigit then
      some ((c :: cs).foldl (fun n d => 10 * n + (d.toNat - '0'.toNat)) 0)
    else none

/-- An integer, if it fits into 64 bits with a sign. -/
def fit? (n : Int) : Option Int :=
  if -0x8000000000000000 ≤ n ∧ n ≤ 0x7fffffffffffffff then some n else none

def value? : List Char → Option Int
  | '-' :: cs => (digits? cs).bind fun n => fit? (-n)
  | '+' :: cs => (digits? cs).bind fun n => fit? n
  | cs => (digits? cs).bind fun n => fit? n

end WattFront.Numeral
