import TinyScript.Token.Basic
import TinyScript.Text.Blank

/-!
# Lexemes

A source text falls into blank characters, which only separate, and lexemes. A lexeme is as long as
its first character allows: all digits that follow a digit, all name characters that follow the
first one of a name, a symbol together with the equals sign that turns it into a longer symbol, or
else a single character.
-/

set_option autoImplicit false

namespace TinyScript

/-- The symbol that begins with a short one in front of a text, and the text behind it. An equals
sign right behind the short symbol belongs to it where the two together are a symbol. -/
def Symbol.extend (short : Symbol) (later : List Char) : Symbol × List Char :=
  match short.withEquals?, later with
  | some long, '=' :: afterEquals => (long, afterEquals)
  | _, _ => (short, later)

theorem Symbol.extend_length_le (short : Symbol) (later : List Char) :
    (short.extend later).2.length ≤ later.length := by
  unfold Symbol.extend
  split
  · exact Nat.le_succ _
  · exact Nat.le_refl _

/-- A piece of source text that gives one token. -/
inductive Lexeme where
  | digits (text : List Char)
  | word (text : List Char)
  | symbol (mark : Symbol)
  /-- A character that begins nothing. -/
  | foreign (character : Char)
  deriving DecidableEq, Repr

namespace Lexeme

def text : Lexeme → List Char
  | .digits text => text
  | .word text => text
  | .symbol mark => mark.text.toList
  | .foreign character => [character]

/-- The lexemes of a text, in order. -/
def split : List Char → List Lexeme
  | [] => []
  | first :: later =>
      if Text.isBlank first then
        split later
      else if first.isDigit then
        .digits (first :: later.takeWhile Char.isDigit) :: split (later.dropWhile Char.isDigit)
      else if Text.isNameFirst first then
        .word (first :: later.takeWhile Text.isNameRest) ::
          split (later.dropWhile Text.isNameRest)
      else match Symbol.ofChar? first with
        | none => .foreign first :: split later
        | some short => .symbol (short.extend later).1 :: split (short.extend later).2
termination_by characters => characters.length
decreasing_by
  · exact Nat.lt_succ_self _
  · exact Nat.lt_succ_of_le (List.dropWhile_suffix _).length_le
  · exact Nat.lt_succ_of_le (List.dropWhile_suffix _).length_le
  · exact Nat.lt_succ_self _
  · exact Nat.lt_succ_of_le (Symbol.extend_length_le short later)

end Lexeme

end TinyScript
