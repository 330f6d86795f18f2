import TinyScript.CommandLine.Command

/-!
# The program

The program reads its words, the file they name or the standard input, and prints what the command
prints. An interactive session answers each line before it reads the next.
-/

set_option autoImplicit false

namespace TinyScript.Main

/-- Whether reports are set off by color: on request, or on a terminal unless declined. -/
def wantsColor : IO Bool := do
  if (← IO.getEnv "NO_COLOR").isSome then return false
  if (← IO.getEnv "FORCE_COLOR").isSome then return true
  (← IO.getStdout).isTty

/-- Why a file cannot be read, by the error of the system. Two errors of one class are told apart
by the number of the one that comes from reading a directory. -/
def pathFault : IO.Error → PathFault
  | .noFileOrDirectory _ _ _ => .missing
  | .inappropriateType _ code _ => if code = 21 then .isDirectory else .notDirectory
  | .permissionDenied _ _ _ => .other "Permission denied"
  | fault => .other (toString fault)

/-- The text of a file, or why it cannot be read. -/
def readFile (path : String) : IO (Except PathFault String) := do
  try
    let content ← IO.FS.readFile path
    return .ok (String.ofList (plainLineEnds content.toList))
  catch fault =>
    return .error (pathFault fault)

/-- Prints pieces of output at once. -/
def emit (color : Bool) (lines : List Line) : IO Unit := do
  IO.print (Line.renderAll color lines)
  (← IO.getStdout).flush

/-- The exit status that an ending asks for. -/
def status : Ending → IO UInt32
  | .proceed => return 0
  | .stop => return 0
  | .exit code => return code.toUInt32
  | .escape failure => do
      IO.eprintln failure.message
      return 1

/-- An interactive session on the standard input. -/
partial def converse (settings : Settings) (color : Bool) (shell : Shell) : IO UInt32 := do
  emit color [.prompt shell.prompt]
  let line ← (← IO.getStdin).getLine
  let asked := if line.isEmpty then Shell.endOfInput else (line.dropEndWhile (· == '\n')).toString
  let answer := shell.takeLine ⟨false, settings.showTrees⟩ asked callLimit
  IO.eprint (Command.logText settings.verbose answer.shell.machine.log)
  emit color answer.lines
  if answer.ending = .proceed then
    let machine := { answer.shell.machine with log := #[] }
    converse settings color { answer.shell with machine := machine }
  else
    status answer.ending

end TinyScript.Main

open TinyScript TinyScript.Main in
/-- Runs the command on the words of the command line. -/
def main (words : List String) : IO UInt32 := do
  let color ← wantsColor
  match Invocation.ofWords words with
  | .help =>
      IO.print Command.helpText
      return 0
  | .refuse error =>
      IO.eprint (Command.usageComplaint error)
      return 2
  | .run settings => match settings.file with
    | none => do
        emit color [.note Shell.greeting]
        converse settings color Shell.fresh
    | some file => do
        let result := Command.runFile settings file (← readFile file)
        IO.eprint result.complaint
        emit color result.output
        status result.ending
