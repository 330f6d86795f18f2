/-!
# Code point ranges

A character class is a list of closed ranges of code points in ascending order. The order lets
the search stop at the first range that begins beyond the code point it looks for.
-/

set_option autoImplicit false

namespace TinyScript.Text

/-- A character class, as closed ranges of code points in ascending order. -/
abbrev Ranges : Type := List (Nat × Nat)

/-- Membership of a code point in ascending ranges. -/
def Ranges.contains : Ranges → Nat → Bool
  | [], _ => false
  | (low, high) :: later, code =>
      if code < low then false else code ≤ high || Ranges.contains later code

end TinyScript.Text
