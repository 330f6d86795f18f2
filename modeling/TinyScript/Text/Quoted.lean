import TinyScript.Text.Printable

/-!
# Quoted text

Text inside a message about data is put between quotation marks. The single mark is preferred;
the double one is taken where the text holds a single mark and no double one. The mark in use and
the backslash are escaped, and characters that cannot be printed are shown by number.
-/

set_option autoImplicit false

namespace TinyScript.Text

/-- The mark that goes around a text. -/
def quotationMark (characters : List Char) : Char :=
  if characters.contains '\x27' && !characters.contains '\x22' then '\x22' else '\x27'

/-- The digits of a number to base sixteen, with zeros in front up to the given width. -/
def hexDigits (width code : Nat) : List Char :=
  (Nat.toDigits 16 code).leftpad width '0'

/-- The shortest numeric escape that fits a code point. -/
def numericEscape (code : Nat) : List Char :=
  if code < 0x100 then '\\' :: 'x' :: hexDigits 2 code
  else if code < 0x10000 then '\\' :: 'u' :: hexDigits 4 code
  else '\\' :: 'U' :: hexDigits 8 code

/-- A character as it stands inside a text with the given quotation mark. -/
def escaped (mark character : Char) : List Char :=
  if character == mark || character == '\\' then ['\\', character]
  else if character == '\n' then ['\\', 'n']
  else if character == '\r' then ['\\', 'r']
  else if character == '\t' then ['\\', 't']
  else if isPrintable character then [character]
  else numericEscape character.toNat

/-- A text between quotation marks. -/
def quoted (text : String) : String :=
  let mark := quotationMark text.toList
  String.ofList (mark :: text.toList.flatMap (escaped mark) ++ [mark])

end TinyScript.Text
