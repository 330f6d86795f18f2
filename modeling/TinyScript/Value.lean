import TinyScript.Node.Data

/-!
# Values

A value is nothing, a truth value, a number or a closure: a function together with the scope its
literal stood in. Scopes are known by their numbers. A function that was handed over with other
parameters or another body than lists keeps both as they are until it is called.
-/

set_option autoImplicit false

namespace TinyScript

/-- What a statement can give. -/
inductive Value where
  | null
  | bool (value : Bool)
  | int (value : Int)
  | closure (parameters : List String) (body : List Node) (home : Nat)
  /-- A closure whose parameters and body are any data. -/
  | strayClosure (parameters body : Datum) (home : Nat)
  deriving DecidableEq

def functionText (parameters : List String) : String :=
  "Function(" ++ String.intercalate ", " parameters ++ ")"

namespace Value

def shown : Value → String
  | .null => "Null"
  | .bool value => "Boolean(" ++ (if value then "true" else "false") ++ ")"
  | .int value => "Integer(" ++ value.repr ++ ")"
  | .closure parameters _ _ => functionText parameters
  | .strayClosure parameters _ _ => functionText (parameters.words?.getD [])

/-- Nothing, falsehood and zero fail a condition; every other value passes it. -/
def isTruthy : Value → Bool
  | .null => false
  | .bool value => value
  | .int value => value ≠ 0
  | .closure .. => true
  | .strayClosure .. => true

end Value

/-- The text shown for a datum: that of a value where the datum stands for one, and otherwise the
notation of the datum. -/
def Datum.shown : Datum → String
  | .null => Value.null.shown
  | .bool value => (Value.bool value).shown
  | .int value => (Value.int value).shown
  | .sequence kind [.text tag, parameters, body, home] =>
      match tag, parameters.words? with
      | "closure", some words => functionText words
      | _, _ => (Datum.sequence kind [.text tag, parameters, body, home]).quote
  | other => other.quote

end TinyScript
