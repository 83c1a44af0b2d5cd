/-
# Progress of a condition in a wait

A wait remembers of each condition its last status, how often it was
checked, when it first held, and how often it held and then held no more.
A status in which a condition has just stopped to hold is recorded with a
note on it; the next check is compared with the recorded status.
-/
import Passage.Status

namespace Passage.Wait

/-- What is remembered of a condition after its first check. -/
structure Progress where
  last : Status
  checks : Nat
  firstFulfilledAfter : Option Duration
  regressions : Nat
  deriving DecidableEq, Repr

namespace Progress

/-- The note on a status in which a condition has stopped to hold, with the number of times that
this has happened. -/
def regressionNote (n : Nat) : String :=
  "(regressed, " ++ Decimal.text n ++ " regressions)"

/-- A status with the note that its condition has stopped to hold. -/
def regressed (s : Status) (n : Nat) : Status :=
  (s.reopen.amend (regressionNote n)).build s.timestamp

/-- The elapsed time if the condition holds. -/
def momentOf (s : Status) (elapsed : Duration) : Option Duration :=
  if s.isFulfilled then some elapsed else none

/-- The condition held at its last check and does not hold now. -/
def hasRegressed (p : Progress) (s : Status) : Bool :=
  p.last.isFulfilled && !s.isFulfilled

def first (s : Status) (elapsed : Duration) : Progress :=
  ⟨s, 1, momentOf s elapsed, 0⟩

def observe (p : Progress) (s : Status) (elapsed : Duration) : Progress where
  last := if p.hasRegressed s then regressed s (p.regressions + 1) else s
  checks := p.checks + 1
  firstFulfilledAfter := p.firstFulfilledAfter.or (momentOf s elapsed)
  regressions := if p.hasRegressed s then p.regressions + 1 else p.regressions

/-- What is remembered after a check, the first one or a later one. -/
def next : Option Progress → Status → Duration → Progress
  | none => first
  | some p => p.observe

/-- The recorded status differs from the one before in more than its time. -/
def isNews (before : Option Progress) (after : Progress) : Bool :=
  match before with
  | none => true
  | some p => p.last.outcome != after.last.outcome || p.last.message != after.last.message

end Progress
end Passage.Wait
