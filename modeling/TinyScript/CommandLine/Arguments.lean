import TinyScript.Text.Decimal
import TinyScript.Text.Quoted

/-!
# Arguments of the command line

The command takes one optional file and three flags. Flags may stand anywhere. Long flags may be cut
short as long as only one can be meant, short flags may be put together behind one dash, and no flag
takes a value. Two dashes alone end the flags. A word that begins with a dash and is no flag counts
as a file all the same if it looks like a negative number or holds a space, or is a lone dash.

All words are told apart before any is acted on; a word that could be short for several flags is
refused then. Words are acted on from left to right, so a request for help is answered even when a
word that nobody asked for stands somewhere: such words are named only at the end.
-/

set_option autoImplicit false

namespace TinyScript

/-- The flags of the command. -/
inductive Flag where
  | help
  | ast
  | verbose
  deriving DecidableEq, Repr

namespace Flag

/-- All spellings of flags, in the order in which they are listed. -/
def spellings : List (String × Flag) :=
  [("-h", .help), ("--help", .help), ("--ast", .ast), ("-v", .verbose), ("--verbose", .verbose)]

def ofSpelling? (spelling : String) : Option Flag :=
  spellings.lookup spelling

/-- A flag as errors name it. -/
def title (flag : Flag) : String :=
  String.intercalate "/" ((spellings.filter fun entry => entry.2 = flag).map Prod.fst)

end Flag

/-- Why the words of a command line are refused. -/
inductive UsageError where
  /-- A word is short for several flags. -/
  | ambiguous (word : String) (candidates : List String)
  /-- A value was given to a flag. -/
  | ignoredValue (flag : Flag) (value : String)
  /-- Words that nobody asked for. -/
  | unrecognized (words : List String)
  deriving DecidableEq, Repr

def UsageError.message : UsageError → String
  | .ambiguous word candidates =>
      "ambiguous option: " ++ word ++ " could match " ++ String.intercalate ", " candidates
  | .ignoredValue flag value =>
      "argument " ++ flag.title ++ ": ignored explicit argument " ++ Text.quoted value
  | .unrecognized words => "unrecognized arguments: " ++ String.intercalate " " words

inductive Argument where
  /-- A flag, with the spelling meant and the characters attached to it, if there are any. -/
  | flag (meant : Flag) (spelling : String) (attached : Option (List Char))
  /-- A word that begins with a dash and is no flag. -/
  | unknown (word : String)
  /-- The two dashes that end the flags. -/
  | separator
  | positional (word : String)
  deriving DecidableEq, Repr

namespace Argument

/-- The word in front of the first equals sign and the characters behind it. -/
def splitValue (word : List Char) : List Char × Option (List Char) :=
  match word.dropWhile (· ≠ '=') with
  | [] => (word, none)
  | _ :: value => (word.takeWhile (· ≠ '='), some value)

/-- Whether a word looks like a negative number. -/
def looksNegative (word : List Char) : Bool :=
  let unended := if word.getLast? = some '\n' then word.dropLast else word
  match unended with
  | '-' :: digits =>
      let behind := digits.dropWhile Text.isDecimal
      match behind with
      | [] => !digits.isEmpty
      | '.' :: decimals => !decimals.isEmpty && decimals.all Text.isDecimal
      | _ => false
  | _ => false

/-- The flags that a word can be short for, with the characters attached to them. -/
def candidates (word : List Char) : List (Flag × String × Option (List Char)) :=
  match word with
  | '-' :: '-' :: _ =>
      let (front, value) := splitValue word
      Flag.spellings.filterMap fun (spelling, meant) =>
        if front.isPrefixOf spelling.toList then some (meant, spelling, value) else none
  | '-' :: letter :: attached =>
      Flag.spellings.filterMap fun (spelling, meant) =>
        if spelling.toList = ['-', letter] then some (meant, spelling, some attached)
        else if word.isPrefixOf spelling.toList then some (meant, spelling, none)
        else none
  | _ => []

/-- What a word in front of the separator is. -/
def classify (word : String) : Except UsageError Argument :=
  let characters := word.toList
  if characters.head? ≠ some '-' then .ok (.positional word)
  else match Flag.ofSpelling? word with
    | some meant => .ok (.flag meant word none)
    | none =>
        if characters = ['-'] then .ok (.positional word)
        else
          let (front, value) := splitValue characters
          match value, Flag.ofSpelling? (String.ofList front) with
          | some attached, some meant => .ok (.flag meant (String.ofList front) (some attached))
          | _, _ => match candidates characters with
            | [(meant, spelling, attached)] => .ok (.flag meant spelling attached)
            | [] =>
                if looksNegative characters || characters.contains ' ' then .ok (.positional word)
                else .ok (.unknown word)
            | several => .error (.ambiguous word (several.map fun entry => entry.2.1))

/-- What the words of a command line are. Behind the separator every word is a positional one. -/
def classifyAll : List String → Except UsageError (List Argument)
  | [] => .ok []
  | first :: later =>
      if first = "--" then .ok (.separator :: later.map .positional)
      else do
        let argument ← classify first
        let arguments ← classifyAll later
        return argument :: arguments

end Argument

/-- What the command was asked to do. -/
structure Settings where
  /-- The file to run, if there is one. -/
  file : Option String
  /-- Whether each statement is printed before it is evaluated. -/
  showTrees : Bool
  /-- Whether calls are logged. -/
  verbose : Bool
  deriving DecidableEq, Repr

inductive Invocation where
  | run (settings : Settings)
  | help
  | refuse (error : UsageError)
  deriving DecidableEq, Repr

namespace Invocation

/-- The place for the file. It is filled once; the separator may stand right in front of the file
or right behind it. -/
inductive Slot where
  | waiting
  | filled
  | closed
  deriving DecidableEq, Repr

/-- What is known after some words of a command line. -/
structure Progress where
  settings : Settings
  slot : Slot
  unrecognized : List String
  deriving DecidableEq, Repr

def Progress.start : Progress := ⟨⟨none, false, false⟩, .waiting, []⟩

/-- Why the reading of a command line stops before its end. -/
inductive Interruption where
  | help
  | refuse (error : UsageError)
  deriving DecidableEq, Repr

/-- The flags that one word stands for. Characters attached to a short flag are short flags as well,
up to the first that is none; then all of them from there on are a value that is refused. -/
def cluster (flag : Flag) (spelling : String) :
    Option (List Char) → Except UsageError (List Flag)
  | none => .ok [flag]
  | some attached =>
      if spelling.length ≠ 2 then .error (.ignoredValue flag (String.ofList attached))
      else short flag attached
where
  /-- The flags from a short one on, to which characters are attached. -/
  short (flag : Flag) : List Char → Except UsageError (List Flag)
    | [] => .error (.ignoredValue flag "")
    | letter :: later =>
        match Flag.ofSpelling? (String.ofList ['-', letter]), later with
        | none, _ => .error (.ignoredValue flag (String.ofList (letter :: later)))
        | some next, [] => .ok [flag, next]
        | some next, _ => do return flag :: (← short next later)

def applyFlag (settings : Settings) : Flag → Except Interruption Settings
  | .help => .error .help
  | .ast => .ok { settings with showTrees := true }
  | .verbose => .ok { settings with verbose := true }

def advance (progress : Progress) : Argument → Except Interruption Progress
  | .flag flag spelling attached => do
      let flags ← (cluster flag spelling attached).mapError .refuse
      let settings ← flags.foldlM applyFlag progress.settings
      return { progress with settings := settings, slot := leaveRun progress.slot }
  | .unknown word =>
      .ok { progress with
        slot := leaveRun progress.slot, unrecognized := progress.unrecognized ++ [word] }
  | .separator => match progress.slot with
      | .waiting => .ok progress
      | .filled => .ok { progress with slot := .closed }
      | .closed => .ok { progress with unrecognized := progress.unrecognized ++ ["--"] }
  | .positional word => match progress.slot with
      | .waiting =>
          .ok { progress with settings := { progress.settings with file := some word }
                              slot := .filled }
      | _ => .ok { progress with
          slot := .closed, unrecognized := progress.unrecognized ++ [word] }
where
  /-- The place for the file after a word that cannot fill it. -/
  leaveRun : Slot → Slot
    | .waiting => .waiting
    | _ => .closed

/-- What a command line means. -/
def ofWords (words : List String) : Invocation :=
  match Argument.classifyAll words with
  | .error error => .refuse error
  | .ok arguments => match arguments.foldlM advance Progress.start with
    | .error .help => .help
    | .error (.refuse error) => .refuse error
    | .ok progress =>
        if progress.unrecognized.isEmpty then .run progress.settings
        else .refuse (.unrecognized progress.unrecognized)

end Invocation

end TinyScript
