import TinyScript.CommandLine.Arguments
import TinyScript.CommandLine.Directory
import TinyScript.Session.Shell

/-!
# The command

The command runs a file, or an interactive session on its input where no file is named. It prints
what the session prints, writes the log to a channel of its own, and ends as the session ends.
Failures are fatal in a file and not in an interactive session.
-/

set_option autoImplicit false

namespace TinyScript

/-- What a command printed and complained about, and how it ended. -/
structure CommandResult where
  output : List Line
  complaint : String
  ending : Ending

namespace Command

def usage : String := "usage: saru [-h] [--ast] [-v] [file]\n"

def helpText : String :=
  usage ++ "\npositional arguments:\n" ++
  "  file           file to run (if empty, starts the interactive shell)\n" ++
  "\noptions:\n" ++
  "  -h, --help     show this help message and exit\n" ++
  "  --ast          print each parsed statement before evaluating it\n" ++
  "  -v, --verbose  log evaluator calls\n"

def usageComplaint (error : UsageError) : String :=
  usage ++ "saru: error: " ++ error.message ++ "\n"

def logLine (record : Record) : String :=
  record.level ++ " saru: " ++ record.message ++ "\n"

/-- The log as far as it is asked for: calls are part of it only on request. -/
def logText (verbose : Bool) (log : Array Record) : String :=
  String.join ((log.toList.filter fun record => verbose || record.isWarning).map logLine)

/-- The lines of an input. A line feed ends a line; the last line may go without. -/
def inputLines (input : String) : List String :=
  let pieces := (input.toList.splitOn '\n').map String.ofList
  if pieces.getLast? = some "" then pieces.dropLast else pieces

/-- Runs the text of a file, or says why there is none. A text that can be no path is not the
user's business. -/
def runFile (settings : Settings) (file : String) (content : Except PathFault String) :
    CommandResult :=
  if !isPath file then
    ⟨[], "", .escape ⟨.unusable, "embedded null byte"⟩⟩
  else match content with
  | .error fault =>
      let report := Report.announce true "file"
        ("'" ++ file ++ "' could not be opened: " ++ fault.message)
      ⟨report.lines, "", report.ending⟩
  | .ok source =>
      let execution := Execution.ofSource ⟨true, settings.showTrees⟩ Machine.fresh source callLimit
      ⟨execution.lines, logText settings.verbose execution.machine.log, execution.ending⟩

/-- Runs an interactive session on an input. -/
def runShell (settings : Settings) (input : String) : CommandResult :=
  let answer := Shell.fresh.converse ⟨false, settings.showTrees⟩ (inputLines input) callLimit
  ⟨.note Shell.greeting :: answer.lines,
    logText settings.verbose answer.shell.machine.log, answer.ending⟩

/-- Runs the command on its words, with the files of a directory and an input. -/
def run (directory : Directory) (input : String) (words : List String) : CommandResult :=
  match Invocation.ofWords words with
  | .help => ⟨[.prompt helpText], "", .exit 0⟩
  | .refuse error => ⟨[], usageComplaint error, .exit 2⟩
  | .run settings => match settings.file with
    | some file => runFile settings file (directory.read file)
    | none => runShell settings input

end Command

end TinyScript
