/-
# Errors of transitions

Why a transition was not run or has not succeeded, and how each error is
put into words.  An error after a failed wait carries the failure of the
last try.
-/
import Passage.Facility
import Passage.Options
import Passage.Wait.Table

namespace Passage

/-- Why a transition has not succeeded. -/
inductive TransitionError where
  /-- No try has met the conditions for entering or leaving the facility. -/
  | unmet (kind : Kind) (facility : String) (attempts : Nat) (failure : Wait.Failure)
  | phase (error : PhaseError)
  | invalidOptions (violations : List OptionsViolation)
  /-- The transition has been run before. -/
  | alreadyExecuted (subject : String)
  deriving DecidableEq, Repr

namespace TransitionError

/-- What the message of an unmet transition says before the failure. -/
def unmetHeading (kind : Kind) (facility : String) (attempts : Nat) : String :=
  "Failed to " ++ kind.verb ++ " " ++ facility ++ " after " ++ Decimal.text attempts ++ " tries: "

def message : TransitionError → String
  | unmet kind facility attempts failure => unmetHeading kind facility attempts ++ failure.text
  | phase error => error.message
  | invalidOptions violations =>
    "Invalid transition options: " ++
      String.intercalate ", " (violations.map OptionsViolation.message)
  | alreadyExecuted subject => "Transition " ++ subject ++ " was already executed"

def failure? : TransitionError → Option Wait.Failure
  | unmet _ _ _ failure => some failure
  | _ => none

def attempts? : TransitionError → Option Nat
  | unmet _ _ attempts _ => some attempts
  | _ => none

end TransitionError
end Passage
