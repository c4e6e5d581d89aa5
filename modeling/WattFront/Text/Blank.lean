import WattFront.Text.CodeRange

/-! # Blank space

The characters with the Unicode property White_Space: tabs, line feeds, spaces of every width, and
the separators of lines and paragraphs. Zero-width characters and the byte order mark are not among
them.
-/

namespace WattFront

/-- The runs of characters with the property White_Space. -/
def blankRanges : CodeRanges := [
  (0x9, 0xD), (0x20, 0x20), (0x85, 0x85), (0xA0, 0xA0), (0x1680, 0x1680), (0x2000, 0x200A),
  (0x2028, 0x2029), (0x202F, 0x202F), (0x205F, 0x205F), (0x3000, 0x3000)]

def isBlank (c : Char) : Bool :=
  blankRanges.has c

def dropBlankEnd (text : List Char) : List Char :=
  (text.reverse.dropWhile isBlank).reverse

end WattFront
