/-!
# Output lines

What a session prints is a list of lines by their meaning. Only rendering knows how an error is
set off from its message.
-/

set_option autoImplicit false

namespace TinyScript

/-- A piece of output. -/
inductive Line where
  | trace (source : String)
  | value (shown : String)
  /-- The report of a failure: the word for its kind, and the message. -/
  | error (label message : String)
  /-- Any other line. -/
  | note (content : String)
  /-- A text after which the line goes on. -/
  | prompt (content : String)
  deriving DecidableEq, Repr

namespace Line

/-- The heading of a report. In color it is bold and red. -/
def heading (color : Bool) (label : String) : String :=
  if color then "\x1b[1m\x1b[31m" ++ label ++ " error: \x1b[0m" else label ++ " error: "

/-- The characters of a piece of output. -/
def render (color : Bool) : Line → String
  | .trace source => source ++ "\n"
  | .value shown => shown ++ "\n"
  | .error label message => heading color label ++ message ++ "\n"
  | .note content => content ++ "\n"
  | .prompt content => content

/-- The characters of several pieces of output, one after the other. -/
def renderAll (color : Bool) (lines : List Line) : String :=
  String.join (lines.map (render color))

end Line

end TinyScript
