/-
# Notices

What a run has to say about itself, as values: a notice per kind of
message, with its level, its message and its fields.  A field is a text or
a count.
-/
import Passage.Kind
import Passage.Time.Duration

namespace Passage

inductive Level where
  | debug
  | info
  | warn
  deriving DecidableEq, Repr

def Level.name : Level → String
  | debug => "DEBUG"
  | info => "INFO"
  | warn => "WARN"

inductive FieldValue where
  | text (s : String)
  | count (n : Nat)
  deriving DecidableEq, Repr

/-- Something a run says about itself. -/
inductive Notice where
  /-- A facility has moved from one phase to the next. -/
  | phaseChanged (facility : String) (source target : Phase)
  | beginning (kind : Kind) (facility : String)
  /-- A try has fired its trigger. -/
  | triggered (kind : Kind) (facility : String)
  /-- A try begins to wait. -/
  | tryWaiting (number tries : Nat) (facility : String)
  /-- A wait for a number of conditions has begun. -/
  | waitBegun (conditions : Nat) (timeout : Duration)
  /-- A condition's status is not what it was at its last check. -/
  | statusChanged (origin : Origin) (condition : String) (gate : String) (elapsed : Duration)
  | allFulfilled (passes : Nat) (elapsed : Duration)
  /-- A try has failed and another one follows. -/
  | tryFailed (number tries : Nat) (reason : String)
  | completed (kind : Kind) (facility : String)
  /-- The pause after a transition begins. -/
  | pausing (subject : String) (pause : Duration)
  /-- A configuration could not be used. -/
  | configIgnored (reason : String)
  deriving DecidableEq, Repr

namespace Notice

def level : Notice → Level
  | phaseChanged .. | waitBegun .. | statusChanged .. | allFulfilled .. => .debug
  | beginning .. | triggered .. | tryWaiting .. | completed .. | pausing .. => .info
  | tryFailed .. | configIgnored .. => .warn

/-- The number of a try among all that are allowed, as messages name it. -/
def tryText (number : Nat) : String := "#" ++ Decimal.text number

def message : Notice → String
  | phaseChanged .. => "Facility phase change"
  | beginning .checkIn _ => "Will enter facility"
  | beginning .checkOut _ => "Will exit facility"
  | triggered .checkIn _ => "Triggered entry into facility"
  | triggered .checkOut _ => "Triggered exit from facility"
  | tryWaiting number tries _ =>
    if tries = 1 then "Triggered transition, waiting"
    else "Triggered transition (try " ++ tryText number ++ "/" ++ Decimal.text tries ++ "), waiting"
  | waitBegun .. => "Waiting for conditions"
  | statusChanged .. => "Condition status changed"
  | allFulfilled .. => "All conditions fulfilled"
  | tryFailed number _ _ => "Try " ++ tryText number ++ " failed"
  | completed .checkIn _ => "Entered facility"
  | completed .checkOut _ => "Exited facility"
  | pausing .. => "Pausing after transition"
  | configIgnored _ => "Ignoring transit configuration from environment"

def fields : Notice → List (String × FieldValue)
  | phaseChanged facility source target =>
    [("facility", .text facility), ("from", .text source.name), ("to", .text target.name)]
  | beginning _ facility | triggered _ facility | completed _ facility =>
    [("facility", .text facility)]
  | tryWaiting number tries facility =>
    if tries = 1 then [("facility", .text facility)]
    else [("try_number", .count number), ("tries", .count tries), ("facility", .text facility)]
  | waitBegun conditions timeout =>
    [("conditions", .count conditions), ("timeout", .text timeout.text)]
  | statusChanged origin condition gate elapsed =>
    [("origin", .text origin.name), ("condition", .text condition), ("status", .text gate),
      ("elapsed", .text elapsed.text)]
  | allFulfilled passes elapsed =>
    [("passes", .count passes), ("elapsed", .text elapsed.text)]
  | tryFailed number tries reason =>
    [("try_number", .count number), ("tries", .count tries), ("error", .text reason)]
  | pausing subject pause => [("subject", .text subject), ("pause", .text pause.text)]
  | configIgnored reason => [("error", .text reason)]

end Notice
end Passage
