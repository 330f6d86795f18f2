import TinyScript.Interpreter
import TinyScript.Node.Source
import TinyScript.Session.Report

/-!
# Execution of source texts

A source text is executed statement by statement: the value of each is printed, and a failure is
reported where it arises. Unless failures are fatal, the next statement runs in what the failed one
left behind. A source text that does not parse is reported as a whole, and nothing of it runs.
-/

set_option autoImplicit false

namespace TinyScript

structure ExecutionMode where
  /-- Whether the first failure ends the session. -/
  fatal : Bool
  /-- Whether each statement is printed before it is evaluated. -/
  showTrees : Bool
  deriving DecidableEq, Repr

/-- What an execution printed, how it ended and what it left behind. -/
structure Execution where
  lines : List Line
  ending : Ending
  machine : Machine

namespace Execution

/-- Evaluates one statement and prints its value. -/
def ofValue (mode : ExecutionMode) (machine : Machine) (statement : Node) (limit : Nat) :
    Execution :=
  match machine.evaluate statement limit with
  | (.ok value, after) => ⟨[.value value.shown], .proceed, after⟩
  | (.error failure, after) =>
      let report := Report.ofFailure mode.fatal failure
      ⟨report.lines, report.ending, after⟩

def ofStatement (mode : ExecutionMode) (machine : Machine) (statement : Node) (limit : Nat) :
    Execution :=
  if mode.showTrees then
    match statement.source .statement with
    | .ok source =>
        let execution := ofValue mode machine statement limit
        { execution with lines := .trace source :: execution.lines }
    | .error fault => ⟨[], .escape fault.failure, machine⟩
  else
    ofValue mode machine statement limit

/-- Executes statements in order, up to the first that does not let the session go on. -/
def ofProgram (mode : ExecutionMode) (machine : Machine) (program : Program) (limit : Nat) :
    Execution :=
  match program with
  | [] => ⟨[], .proceed, machine⟩
  | first :: later =>
      let execution := ofStatement mode machine first limit
      if execution.ending = .proceed then
        let following := ofProgram mode execution.machine later limit
        { following with lines := execution.lines ++ following.lines }
      else
        execution

def ofSource (mode : ExecutionMode) (machine : Machine) (source : String) (limit : Nat) :
    Execution :=
  match Program.ofSource source with
  | .ok program => ofProgram mode machine program limit
  | .error failure =>
      let report := Report.ofFailure mode.fatal failure
      ⟨report.lines, report.ending, machine⟩

end Execution

end TinyScript
