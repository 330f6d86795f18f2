import TinyScript.Store
import TinyScript.Token.Scan

/-!
# Evaluation

Trees are evaluated in a scope of a machine, which holds the store and the log. An evaluation gives
a value or an error, and in both cases the machine it leaves: what was done before an error stays
done. Evaluation of a tree is defined on the tree alone, for any way to run the body of a function;
calls may nest, and how deeply they do is the business of that way.

Only calls that nest count against a limit. It stands for the stack of the source's host, on which a
call takes several frames, the more the deeper it stands in its statement. No one number of calls does
for all programs, so a limit is a part of every run, and what is said of runs and sessions is said for
every limit. How deep a tree is, is not bounded: not where texts are parsed or printed, and not where
operands are evaluated.
-/

set_option autoImplicit false

namespace TinyScript

/-- Why an evaluation gives no value. -/
inductive EvalError where
  | undefinedVariable (name : String)
  | undefinedFunction (name : String)
  | notAFunction (name : String) (value : Value)
  | unsupportedOperands (op : BinaryOp) (left right : Value)
  | overflow (op : BinaryOp) (left right : Int)
  | depthExceeded
  | unexpectedNode (node : Node)
  deriving DecidableEq

/-- The failure that an evaluation without value ends as. -/
def EvalError.failure : EvalError → Failure
  | .undefinedVariable name => ⟨.language .name, "Undefined variable @ lookup(): " ++ name⟩
  | .undefinedFunction name =>
      ⟨.language .call, "Undefined function @ _evaluate_call(): " ++ name⟩
  | .notAFunction name value =>
      ⟨.language .call, "Not a function @ _evaluate_call(): " ++ name ++ " = " ++ value.shown⟩
  | .unsupportedOperands op left right =>
      ⟨.language .type,
        "Unsupported operands @ " ++ op.tag ++ ": " ++ left.shown ++ ", " ++ right.shown⟩
  | .overflow op left right =>
      ⟨.language .overflow,
        "Integer overflow @ " ++ op.tag ++ ": " ++ left.repr ++ ", " ++ right.repr⟩
  | .depthExceeded => ⟨.depth, depthMessage⟩
  | .unexpectedNode node =>
      ⟨.unusable, "Unexpected expression @ evaluate(): " ++ node.toDatum.inserted⟩

/-- What is worth a line in the log. -/
inductive Record where
  /-- A function was called with another number of arguments than it takes. -/
  | arity (callee : String) (expected given : Nat)
  | call (callee : String) (arguments : List Value)
  deriving DecidableEq

namespace Record

/-- Whether a record is kept even if calls are not logged. -/
def isWarning : Record → Bool
  | .arity .. => true
  | .call .. => false

def level (record : Record) : String :=
  if record.isWarning then "WARNING" else "DEBUG"

def message : Record → String
  | .arity callee expected given =>
      callee ++ "() takes " ++ expected.repr ++ " arguments, called with " ++ given.repr
  | .call callee arguments =>
      "call " ++ callee ++ "(" ++ String.intercalate ", " (arguments.map Value.shown) ++ ")"

end Record

/-- The state of a run: all scopes, and what was logged. -/
structure Machine where
  store : Store
  log : Array Record
  deriving DecidableEq

/-- A step of a run, which gives a value or an error and changes the machine. -/
abbrev Eval : Type → Type := EStateM EvalError Machine

/-- A way to run the body of a function in a scope. -/
abbrev Enter : Type := Nat → List Node → Eval Value

def logRecord (record : Record) : Eval Unit :=
  modify fun machine => { machine with log := machine.log.push record }

def modifyStore (change : Store → Store) : Eval Unit :=
  modify fun machine => { machine with store := change machine.store }

/-- The result of an operator on numbers. Arithmetic is exact, and its result has to fit. -/
def BinaryOp.onInts (op : BinaryOp) (left right : Int) : Except EvalError Value :=
  match op with
  | .add => bounded (left + right)
  | .sub => bounded (left - right)
  | .mul => bounded (left * right)
  | .less => .ok (.bool (left < right))
  | .lessOrEqual => .ok (.bool (left ≤ right))
where
  bounded (value : Int) : Except EvalError Value :=
    if fitsInt value then .ok (.int value) else .error (.overflow op left right)

/-- The result of an operator. Its operands have to be numbers. -/
def BinaryOp.onValues (op : BinaryOp) : Value → Value → Except EvalError Value
  | .int left, .int right => op.onInts left right
  | left, right => .error (.unsupportedOperands op left right)

def lastValue (values : List Value) : Value := values.getLastD .null

def readName (scope : Nat) (name : String) : Eval Value := do
  match (← get).store.lookup? scope name with
  | some value => return value
  | none => throw (.undefinedVariable name)

/-- Calls a function under a name. Its body runs in a new scope, whose parent is the scope of the
function literal; it finds there the parameters, as far as there are arguments for them, and the
function itself under the name of the call. -/
def callBody (enter : Enter) (callee : String) (function : Value) (bound : Bindings)
    (body : List Node) (home : Nat) : Eval Value := do
  let inner := (← get).store.nextId
  modifyStore fun store =>
    ((store.addScope (some home)).defineAll inner bound).define inner callee function
  enter inner body

/-- Notes a call in the log, and in front of it that the number of arguments is wrong if it is. -/
def logCall (callee : String) (expected : Nat) (arguments : List Value) : Eval Unit := do
  if expected ≠ arguments.length then
    logRecord (.arity callee expected arguments.length)
  logRecord (.call callee arguments)

/-- The parameters that are texts, with the arguments at their places. No name finds the others. -/
def bindTexts (parameters : List Datum) (arguments : List Value) : Bindings :=
  (parameters.zip arguments).filterMap fun (parameter, argument) =>
    parameter.text?.map fun spelling => (spelling, argument)

/-- Calls what a name is bound to. -/
def callNamed (enter : Enter) (scope : Nat) (callee : String) (arguments : List Value) :
    Eval Value := do
  match (← get).store.lookup? scope callee with
  | none => throw (.undefinedFunction callee)
  | some (.closure parameters body home) => do
      logCall callee parameters.length arguments
      callBody enter callee (.closure parameters body home) (parameters.zip arguments) body home
  | some (.strayClosure parameters body home) => do
      logCall callee parameters.items.length arguments
      callBody enter callee (.strayClosure parameters body home)
        (bindTexts parameters.items arguments) (Node.ofData body.items) home
  | some other => throw (.notAFunction callee other)

namespace Node

mutual

/-- The value of a tree in a scope. -/
def evaluate (enter : Enter) (scope : Nat) : Node → Eval Value
  | .int value => return .int value
  | .bool value => return .bool value
  | .name spelling => readName scope spelling
  | .binary op left right => do
      let leftValue ← evaluate enter scope left
      let rightValue ← evaluate enter scope right
      match op.onValues leftValue rightValue with
      | .ok value => return value
      | .error fault => throw fault
  | .letE target value => do
      let bound ← evaluate enter scope value
      modifyStore fun store => store.define scope target bound
      return bound
  | .returnE value => evaluate enter scope value
  | .block statements => do
      let values ← evaluateAll enter scope statements
      return lastValue values
  | .ifThen condition consequence => do
      let tested ← evaluate enter scope condition
      if tested.isTruthy then evaluate enter scope consequence else return .null
  | .ifElse condition consequence alternative => do
      let tested ← evaluate enter scope condition
      if tested.isTruthy then evaluate enter scope consequence
      else evaluate enter scope alternative
  | .call callee arguments => do
      let values ← evaluateAll enter scope arguments
      callNamed enter scope callee values
  | .func parameters body => return .closure parameters body scope
  | .strayLet target value => throw (.unexpectedNode (.strayLet target value))
  | .strayCall callee arguments => throw (.unexpectedNode (.strayCall callee arguments))
  | .strayFunc parameters body _ => return .strayClosure parameters body scope
  | .shownAs content meaning =>
      if meaning.isEvaluable then evaluate enter scope meaning
      else throw (.unexpectedNode (.shownAs content meaning))
  | .stray content => throw (.unexpectedNode (.stray content))

def evaluateAll (enter : Enter) (scope : Nat) : List Node → Eval (List Value)
  | [] => return []
  | first :: later => do
      let value ← evaluate enter scope first
      let values ← evaluateAll enter scope later
      return value :: values

end

end Node

/-- Runs the body of a function with calls nested at most so deeply, this one included. -/
def enterWithin : Nat → Enter
  | 0, _, _ => throw .depthExceeded
  | depth + 1, scope, body => do
      let values ← Node.evaluateAll (enterWithin depth) scope body
      return lastValue values

/-- How deeply calls may nest where no other limit is given. -/
def callLimit : Nat := 1500

/-- The value of a tree in a scope, with calls nested at most as deeply as they may. -/
def evaluateIn (scope : Nat) (node : Node) (limit : Nat := callLimit) : Eval Value :=
  node.evaluate (enterWithin limit) scope

end TinyScript
