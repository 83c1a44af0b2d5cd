/-
# Phases of a facility

A facility only moves forward, one phase at a time: `Phase.next` names
the one phase that may follow, and `canAdvanceTo` holds of no other.
-/
import Passage.Json.Record

namespace Passage

/-- Where a facility is in its life. -/
inductive Phase where
  /-- Declared, and never entered. -/
  | new
  /-- Being entered. -/
  | transitioningTo
  /-- Entered, and not yet being left. -/
  | active
  /-- Being left. -/
  | transitioningFrom
  /-- Left for good. -/
  | finished
  deriving DecidableEq, Repr

namespace Phase

def name : Phase → String
  | new => "New"
  | transitioningTo => "TransitioningTo"
  | active => "Active"
  | transitioningFrom => "TransitioningFrom"
  | finished => "Finished"

def all : List Phase := [new, transitioningTo, active, transitioningFrom, finished]

def choices : Json.Choices Phase := all.map fun p => (p.name, p)

/-- The one phase that may follow. -/
def next : Phase → Option Phase
  | new => some transitioningTo
  | transitioningTo => some active
  | active => some transitioningFrom
  | transitioningFrom => some finished
  | finished => none

def isFinal (p : Phase) : Bool := p == finished

/-- The facility is on its way into this phase's state or out of it. -/
def isTransitioning (p : Phase) : Bool := p == transitioningTo || p == transitioningFrom

def canAdvanceTo (p q : Phase) : Bool := p.next == some q

def read : Json.Reader Phase := Json.readChoice choices

theorem canAdvanceTo_iff {p q : Phase} : p.canAdvanceTo q = true ↔ p.next = some q := by
  simp [canAdvanceTo]

end Phase
end Passage
