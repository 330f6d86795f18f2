import TinyScript.Evaluation
import TinyScript.Node.Parse

/-!
# From source text to values

A source text is scanned and parsed as a whole before anything of it is run. The statements of a
program are evaluated one after the other in the global scope of a machine, which stays for the
next program. The limit of nested calls is a part of each run.
-/

set_option autoImplicit false

namespace TinyScript

def Token.ofSource (source : String) : Except Failure (List Token) :=
  (Token.scan source).mapError ScanError.failure

def Program.ofTokens (tokens : List Token) : Except Failure Program :=
  (Parse.program tokens).mapError fun error => error.fault.failure

def Program.ofSource (source : String) : Except Failure Program := do
  Program.ofTokens (← Token.ofSource source)

/-- The scope that all programs of a machine share. -/
def globalScope : Nat := 0

/-- The values of the statements of a program, in order. The first statement without a value ends
the run. -/
def Program.evaluate (program : Program) (limit : Nat) : Eval (List Value) :=
  Node.evaluateAll (enterWithin limit) globalScope program

namespace Machine

def empty : Machine := ⟨Store.empty, #[]⟩

/-- A machine whose global scope binds nothing. -/
def fresh : Machine := ⟨Store.empty.addScope none, #[]⟩

/-- The result of a step on a machine, and the machine after it. -/
def perform {α : Type} (machine : Machine) (step : Eval α) : Except Failure α × Machine :=
  match step.run machine with
  | .ok value after => (.ok value, after)
  | .error fault after => (.error fault.failure, after)

def evaluate (machine : Machine) (node : Node) (limit : Nat := callLimit) :
    Except Failure Value × Machine :=
  machine.perform (evaluateIn globalScope node limit)

/-- Runs a source text: the values of its statements. -/
def run (machine : Machine) (source : String) (limit : Nat := callLimit) :
    Except Failure (List Value) × Machine :=
  match Program.ofSource source with
  | .ok program => machine.perform (program.evaluate limit)
  | .error failure => (.error failure, machine)

/-- Runs a source text: the value of its last statement. -/
def runLast (machine : Machine) (source : String) (limit : Nat := callLimit) :
    Except Failure Value × Machine :=
  let (result, after) := machine.run source limit
  (result.map lastValue, after)

end Machine

end TinyScript
