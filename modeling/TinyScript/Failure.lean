/-!
# Failures

Whatever goes wrong in a stage ends as a failure: a category, which decides who reports it, and a
message. Failures of the language itself carry a kind and are reported to the user; a limit on the
depth of calls and an interrupt have fixed reports; an unusable value and a missing character are
faults of the caller and are never reported.
-/

set_option autoImplicit false

namespace TinyScript

/-- The kinds of failures that a program of the language can cause. -/
inductive FailureKind where
  | runtime
  | grammar
  | type
  | name
  | call
  | overflow
  deriving DecidableEq, Repr

/-- The word that opens the report of a failure. -/
def FailureKind.label : FailureKind → String
  | .runtime => "runtime"
  | .grammar => "syntax"
  | .type => "type"
  | .name => "name"
  | .call => "call"
  | .overflow => "overflow"

/-- Who answers for a failure. -/
inductive FailureCategory where
  | language (kind : FailureKind)
  /-- Calls nest deeper than the limit. -/
  | depth
  /-- The user broke off the run. -/
  | interrupt
  /-- A value was handed over that the stage has no use for. -/
  | unusable
  /-- A character was asked of an empty text. -/
  | emptyText
  deriving DecidableEq, Repr

/-- What went wrong, for whom, and in which words. -/
structure Failure where
  category : FailureCategory
  message : String
  deriving DecidableEq, Repr

def depthMessage : String := "maximum recursion depth exceeded"

def emptyTextMessage : String := "string index out of range"

end TinyScript
