import TinyScript.Text.Ranges

/-!
# Blank characters

The characters that separate lexemes: the bidirectional separators and spaces of Unicode 14,
line ends included.
-/

set_option autoImplicit false

namespace TinyScript.Text

/-- The code points that separate lexemes. -/
def blankRanges : Ranges := [
  (0x9, 0xD), (0x1C, 0x20), (0x85, 0x85), (0xA0, 0xA0), (0x1680, 0x1680), (0x2000, 0x200A),
  (0x2028, 0x2029), (0x202F, 0x202F), (0x205F, 0x205F), (0x3000, 0x3000)]

/-- Whether a character only separates what stands around it. -/
def isBlank (character : Char) : Bool :=
  blankRanges.contains character.toNat

end TinyScript.Text
