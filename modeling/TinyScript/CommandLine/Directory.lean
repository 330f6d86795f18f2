import TinyScript.Failure

/-!
# Files of a directory

A directory holds files by name. A path is followed word by word, from the directory or, if it
begins with a slash, from the root above all directories; it has to end at a file. Nothing is known
of what lies outside of the directory, except that the way up never ends at a file. Lines of a file
may end in any of the three usual ways and are read as if all ended in the same.
-/

set_option autoImplicit false

namespace TinyScript

/-- Why a path leads to no text. -/
inductive PathFault where
  | missing
  | isDirectory
  | notDirectory
  | nameTooLong
  | other (reason : String)
  deriving DecidableEq, Repr

/-- The reason for which a path leads to no text. -/
def PathFault.message : PathFault → String
  | .missing => "No such file or directory"
  | .isDirectory => "Is a directory"
  | .notDirectory => "Not a directory"
  | .nameTooLong => "File name too long"
  | .other reason => reason

/-- Whether a text can be a path at all: none of its characters is the one that ends paths. -/
def isPath (path : String) : Bool :=
  !path.toList.contains '\x00'

abbrev Directory : Type := List (String × String)

/-- A text in which every line ends in a line feed, where a carriage return, alone or with a line
feed behind it, ended one as well. -/
def plainLineEnds : List Char → List Char
  | [] => []
  | '\r' :: '\n' :: later => '\n' :: plainLineEnds later
  | '\r' :: later => '\n' :: plainLineEnds later
  | first :: later => first :: plainLineEnds later

namespace Directory

/-- The most bytes of a word of a path. -/
def wordLimit : Nat := 255

/-- The most bytes of a path. -/
def pathLimit : Nat := 4095

/-- Whether a word of a path stays where it is. -/
def stays (word : String) : Bool :=
  word = "" || word = "."

/-- Follows the words of a path from somewhere outside of the directory. -/
def followOutside : List String → Except PathFault String
  | [] => .error .isDirectory
  | word :: later =>
      if stays word || word = ".." then followOutside later
      else if wordLimit < word.utf8ByteSize then .error .nameTooLong
      else .error .missing

/-- Follows the words of a path from the directory itself. -/
def follow (directory : Directory) : List String → Except PathFault String
  | [] => .error .isDirectory
  | word :: later =>
      if stays word then directory.follow later
      else if word = ".." then followOutside later
      else if wordLimit < word.utf8ByteSize then .error .nameTooLong
      else match directory.lookup word with
        | none => .error .missing
        | some content => if later.isEmpty then .ok content else .error .notDirectory

def read (directory : Directory) (path : String) : Except PathFault String :=
  let words := (path.toList.splitOn '/').map String.ofList
  if path = "" then .error .missing
  else if pathLimit < path.utf8ByteSize then .error .nameTooLong
  else if path.toList.head? = some '/' then followOutside words
  else (directory.follow words).map fun content => String.ofList (plainLineEnds content.toList)

end Directory

end TinyScript
