import TinyScript.Session.Execution

/-!
# The interactive shell

The shell takes lines. A line with more opening than closing braces is kept and continued by the
next one; otherwise what was kept is executed together with the line. Outside a continuation a few
bare words are commands, and the line that stands for the end of input is a command everywhere.
-/

set_option autoImplicit false

namespace TinyScript

/-- An interactive session: its machine, and the text that waits to be continued. -/
structure Shell where
  machine : Machine
  buffer : String

/-- What a line given to a shell printed, how it ended and what it left behind. -/
structure ShellAnswer where
  lines : List Line
  ending : Ending
  shell : Shell

namespace Shell

def fresh : Shell := ⟨Machine.fresh, ""⟩

def greeting : String :=
  "saru interpreter\nType 'help' for more information, 'exit' to quit."

def helpText : String :=
  "saru has integers, booleans, let bindings, if/else and first-class functions.\n\n" ++
    "Try 'let add = fn(a, b) \x7b a + b; \x7d;' followed by 'add(1, 2);'."

/-- The line that stands for the end of input. -/
def endOfInput : String := "EOF"

/-- What the shell prints when it waits for a line. -/
def prompt (shell : Shell) : String :=
  if shell.buffer = "" then ">> " else ".. "

/-- A text without the blank characters at both ends. -/
def stripped (text : String) : String :=
  let front := text.toList.dropWhile Text.isBlank
  String.ofList (front.reverse.dropWhile Text.isBlank).reverse

/-- Whether braces were opened that are not closed, by their number alone. -/
def isIncomplete (text : String) : Bool :=
  text.toList.count '\x7d' < text.toList.count '\x7b'

/-- A line of source text: kept as long as braces are open, executed otherwise. -/
def takeSource (mode : ExecutionMode) (shell : Shell) (line : String) (limit : Nat) :
    ShellAnswer :=
  let source := shell.buffer ++ line
  if isIncomplete source then
    ⟨[], .proceed, { shell with buffer := source ++ "\n" }⟩
  else
    let execution := Execution.ofSource mode shell.machine source limit
    ⟨execution.lines, execution.ending, ⟨execution.machine, ""⟩⟩

def takeLine (mode : ExecutionMode) (shell : Shell) (line : String) (limit : Nat := callLimit) :
    ShellAnswer :=
  if line = endOfInput then
    ⟨[.note ""], .stop, shell⟩
  else if shell.buffer = "" then
    match stripped line with
    | "" => ⟨[], .proceed, shell⟩
    | "exit" => ⟨[], .stop, shell⟩
    | "help" => ⟨[.note helpText], .proceed, shell⟩
    | _ => takeSource mode shell line limit
  else
    takeSource mode shell line limit

/-- A whole interactive session on the given lines of input, each behind its prompt. The end of
input is taken as a last line. -/
def converse (mode : ExecutionMode) (shell : Shell) (lines : List String) (limit : Nat) :
    ShellAnswer :=
  match lines with
  | [] =>
      let answer := shell.takeLine mode endOfInput limit
      { answer with lines := .prompt shell.prompt :: answer.lines }
  | line :: later =>
      let answer := shell.takeLine mode line limit
      if answer.ending = .proceed then
        let following := converse mode answer.shell later limit
        { following with lines := .prompt shell.prompt :: answer.lines ++ following.lines }
      else
        { answer with lines := .prompt shell.prompt :: answer.lines }

end Shell

end TinyScript
