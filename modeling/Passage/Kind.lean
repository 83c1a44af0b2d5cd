/-
# Kinds of transitions and of waits

A transition enters a facility or leaves it (`Kind`), and goes through
stages (`Stage`).  A condition that it waits for comes from entering the
facility, from leaving it, or from the transition itself (`Origin`).
-/
import Passage.Phase

namespace Passage

/-- Where the conditions of a wait come from; in this order they stand in tables. -/
inductive Origin where
  | enter
  | exit
  | transition
  deriving DecidableEq, Repr

namespace Origin

def name : Origin → String
  | enter => "ENTER"
  | exit => "EXIT"
  | transition => "TRANSITION"

/-- The place of an origin in the order of tables. -/
def rank : Origin → Nat
  | enter => 0
  | exit => 1
  | transition => 2

def choices : Json.Choices Origin := [enter, exit, transition].map fun o => (o.name, o)

def read : Json.Reader Origin := Json.readChoice choices

end Origin

inductive Stage where
  | notStarted
  | beforeHook
  | triggered
  | waiting
  | succeeded
  | failed
  deriving DecidableEq, Repr

namespace Stage

def name : Stage → String
  | notStarted => "NotStarted"
  | beforeHook => "BeforeHook"
  | triggered => "Triggered"
  | waiting => "Waiting"
  | succeeded => "Succeeded"
  | failed => "Failed"

def choices : Json.Choices Stage :=
  [notStarted, beforeHook, triggered, waiting, succeeded, failed].map fun s => (s.name, s)

def read : Json.Reader Stage := Json.readChoice choices

end Stage

inductive Kind where
  | checkIn
  | checkOut
  deriving DecidableEq, Repr

namespace Kind

def name : Kind → String
  | checkIn => "check-in"
  | checkOut => "check-out"

def choices : Json.Choices Kind := [checkIn, checkOut].map fun k => (k.name, k)

def read : Json.Reader Kind := Json.readChoice choices

def before : Kind → Phase
  | checkIn => .new
  | checkOut => .active

/-- The phase of a facility while the transition runs. -/
def during : Kind → Phase
  | checkIn => .transitioningTo
  | checkOut => .transitioningFrom

/-- The phase of a facility after the transition has succeeded. -/
def done : Kind → Phase
  | checkIn => .active
  | checkOut => .finished

/-- The origin of the conditions that the facility contributes. -/
def origin : Kind → Origin
  | checkIn => .enter
  | checkOut => .exit

/-- What the transition does to the facility. -/
def verb : Kind → String
  | checkIn => "enter"
  | checkOut => "exit"

theorem next_during (k : Kind) : k.during.next = some k.done := by cases k <;> rfl

end Kind
end Passage
