import TinyScript.Text.Letter
import TinyScript.Text.Numeral

/-!
# Characters of names

A name begins with a letter or an underscore and goes on with letters, numerals and underscores.
-/

set_option autoImplicit false

namespace TinyScript.Text

/-- Whether a name may begin with the character. -/
def isNameFirst (character : Char) : Bool :=
  isLetter character || character == '_'

/-- Whether a name may go on with the character. -/
def isNameRest (character : Char) : Bool :=
  isLetter character || isNumeral character || character == '_'

end TinyScript.Text
