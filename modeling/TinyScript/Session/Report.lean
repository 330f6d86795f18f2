import TinyScript.Failure
import TinyScript.Session.Line

/-!
# Reports of failures

A failure of the language, a call nested too deeply and an interrupt are reported to the user. If
failures are fatal the report ends the session; otherwise the session goes on. Other failures are
no business of the user and come through.
-/

set_option autoImplicit false

namespace TinyScript

/-- How a part of a session ends. -/
inductive Ending where
  | proceed
  /-- The user asked to leave. -/
  | stop
  | exit (status : Nat)
  /-- A failure comes through that nobody reports. -/
  | escape (failure : Failure)
  deriving DecidableEq, Repr

/-- The word and the message of the report of a failure, if it has one. -/
def Failure.report? (failure : Failure) : Option (String × String) :=
  match failure.category with
  | .language kind => some (kind.label, failure.message)
  | .depth => some ("recursion", depthMessage)
  | .interrupt => some ("interrupt", "keyboard interrupt")
  | .unusable => none
  | .emptyText => none

/-- Lines that were printed, and how that ended. -/
structure Report where
  lines : List Line
  ending : Ending
  deriving DecidableEq, Repr

namespace Report

def announce (fatal : Bool) (label message : String) : Report :=
  ⟨[.error label message], if fatal then .exit 1 else .proceed⟩

/-- What becomes of a failure. -/
def ofFailure (fatal : Bool) (failure : Failure) : Report :=
  match failure.report? with
  | some (label, message) => announce fatal label message
  | none => ⟨[], .escape failure⟩

end Report

end TinyScript
