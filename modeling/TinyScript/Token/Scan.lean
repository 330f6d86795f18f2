import TinyScript.Token.Lexeme

/-!
# From source text to tokens

Each lexeme becomes one token, and an end mark follows the last. Only digits can fail: a number has
to fit into 32 bits with a sign, and a text of more than 4300 digits is not read as a number at all.
-/

set_option autoImplicit false

namespace TinyScript

/-- The smallest number of the language. -/
def intMin : Int := -2147483648

def intMax : Int := 2147483647

/-- Whether a number fits into 32 bits with a sign. -/
def fitsInt (value : Int) : Bool :=
  decide (intMin ≤ value) && decide (value ≤ intMax)

/-- Why digits give no token. -/
inductive ScanError where
  /-- There are more digits than a number may be written with. -/
  | tooManyDigits (count : Nat)
  /-- The number is larger than the largest one of the language. -/
  | outOfRange (value : Nat)
  deriving DecidableEq, Repr

namespace ScanError

/-- The most digits that a number may be written with, leading zeros included. -/
def digitLimit : Nat := 4300

/-- The failure that a fault in scanning ends as. -/
def failure : ScanError → Failure
  | .tooManyDigits count =>
      ⟨.unusable, "Exceeds the limit (" ++ digitLimit.repr ++
        " digits) for integer string conversion: value has " ++ count.repr ++
        " digits; use sys.set_int_max_str_digits() to increase the limit"⟩
  | .outOfRange value =>
      ⟨.language .grammar, "Integer literal out of range @ _number(): " ++ value.repr⟩

end ScanError

namespace Token

def ofDigits (text : List Char) : Except ScanError Token :=
  let value := Nat.ofDigitChars 10 text 0
  if ScanError.digitLimit < text.length then .error (.tooManyDigits text.length)
  else if intMax < (value : Int) then .error (.outOfRange value)
  else .ok (.int value)

def ofWord (text : List Char) : Token :=
  match Keyword.ofText? (String.ofList text) with
  | some word => .keyword word
  | none => .name (String.ofList text)

def ofLexeme : Lexeme → Except ScanError Token
  | .digits text => ofDigits text
  | .word text => .ok (ofWord text)
  | .symbol mark => .ok (.symbol mark)
  | .foreign character => .ok (.illegal (.text (String.singleton character)))

/-- The tokens of a source text, or the fault of the first lexeme that gives none. -/
def scan (source : String) : Except ScanError (List Token) :=
  return (← (Lexeme.split source.toList).mapM ofLexeme) ++ [.endMark]

end Token

end TinyScript
